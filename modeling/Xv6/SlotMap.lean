import Mathlib.Data.List.Basic
import Mathlib.Logic.Function.Basic
import Mathlib.Tactic

/-!
# Finite maps kept in a list of slots

Each slot of the list binds one key or is free. A binding is added in a free slot
or at the end, and removed by freeing its slot. As long as no two slots bind the
same key, the list is a finite map.
-/
namespace SlotMap

open Function

variable {α κ β : Type*} [DecidableEq κ] (bind : α → Option (κ × β))

/-- The value of the first slot that binds the key. -/
def lookup (l : List α) (c : κ) : Option β :=
  l.findSome? fun a => (bind a).bind fun p => if p.1 = c then some p.2 else none

/-- No two slots bind the same key. -/
def Distinct (l : List α) : Prop :=
  ∀ (i j : ℕ) (a b : α) (c : κ) (u v : β), l[i]? = some a → l[j]? = some b →
    bind a = some (c, u) → bind b = some (c, v) → i = j

/-- Overwrite slot `k`, or add one at the end. -/
def put (l : List α) (k : ℕ) (e : α) : List α := if k < l.length then l.set k e else l ++ [e]

variable {bind} {l : List α} {k : ℕ} {a e : α} {c : κ} {v : β}

omit [DecidableEq κ] in
lemma getElem?_put (hk : k ≤ l.length) (j : ℕ) :
    (put l k e)[j]? = if j = k then some e else l[j]? := by
  unfold put
  by_cases hlt : k < l.length
  · rw [if_pos hlt, List.getElem?_set]
    by_cases hj : k = j
    · simp [hj, hj ▸ hlt]
    · simp [hj, Ne.symm hj]
  · have hlen : k = l.length := by omega
    rw [if_neg hlt, List.getElem?_append]
    by_cases hj : j < l.length
    · simp [hj, show j ≠ k by omega]
    · by_cases hjk : j = k
      · simp [hjk, hlen]
      · have hout : (l ++ [e]).length ≤ j := by
          rw [List.length_append, List.length_singleton]
          omega
        rw [← List.getElem?_append, if_neg hjk, List.getElem?_eq_none hout,
          List.getElem?_eq_none (by omega)]

lemma lookup_eq_none_iff : lookup bind l c = none ↔
    ∀ (k : ℕ) (a : α) (v : β), l[k]? = some a → bind a ≠ some (c, v) := by
  rw [lookup, List.findSome?_eq_none_iff]
  constructor
  · intro h k a v ha hb
    have hnone := h a (List.mem_of_getElem? ha)
    simp [hb] at hnone
  · intro h a ha
    obtain ⟨k, hk⟩ := List.mem_iff_getElem?.mp ha
    cases hb : bind a with
    | none => rfl
    | some p =>
      by_cases hp : p.1 = c
      · exact absurd (by rw [hb, ← hp]) (h k a p.2 hk)
      · simp [hp]

lemma exists_of_lookup (h : lookup bind l c = some v) :
    ∃ (k : ℕ) (a : α), l[k]? = some a ∧ bind a = some (c, v) := by
  obtain ⟨a, ha, hv⟩ := List.exists_of_findSome?_eq_some h
  obtain ⟨k, hk⟩ := List.mem_iff_getElem?.mp ha
  obtain ⟨p, hp, hc⟩ := Option.bind_eq_some_iff.mp hv
  split at hc
  · next he =>
    cases hc
    exact ⟨k, a, hk, by rw [hp, ← he]⟩
  · cases hc

/-- With distinct keys every binding is found. -/
lemma lookup_eq_some_iff (hd : Distinct bind l) : lookup bind l c = some v ↔
    ∃ (k : ℕ) (a : α), l[k]? = some a ∧ bind a = some (c, v) := by
  constructor
  · exact exists_of_lookup
  · rintro ⟨k, a, hk, ha⟩
    cases h : lookup bind l c with
    | none => exact absurd ha (lookup_eq_none_iff.mp h k a v hk)
    | some w =>
      obtain ⟨j, b, hj, hb⟩ := exists_of_lookup h
      obtain rfl := hd k j a b c v w hk hj ha hb
      rw [hk] at hj
      cases hj
      rw [ha] at hb
      cases hb
      rfl

omit [DecidableEq κ] in
lemma distinct_of_pairwise (h : l.Pairwise fun a b => (bind a).map Prod.fst = none ∨
    (bind a).map Prod.fst ≠ (bind b).map Prod.fst) : Distinct bind l := by
  have hlt : ∀ (i j : ℕ) (a b : α) (c : κ) (u v : β), l[i]? = some a → l[j]? = some b →
      bind a = some (c, u) → bind b = some (c, v) → ¬ i < j := by
    intro i j a b c u v ha hb hba hbb hij
    obtain ⟨hi, rfl⟩ := List.getElem?_eq_some_iff.mp ha
    obtain ⟨hj, rfl⟩ := List.getElem?_eq_some_iff.mp hb
    have hp := List.pairwise_iff_getElem.mp h i j hi hj hij
    rw [hba, hbb] at hp
    simp at hp
  intro i j a b c u v ha hb hba hbb
  have h1 := hlt i j a b c u v ha hb hba hbb
  have h2 := hlt j i b a c v u hb ha hbb hba
  omega

/-- A new key goes into a free slot or to the end. -/
theorem insert (hd : Distinct bind l) (hk : k ≤ l.length)
    (hfree : ∀ a, l[k]? = some a → bind a = none) (hnew : lookup bind l c = none)
    (he : bind e = some (c, v)) :
    Distinct bind (put l k e) ∧
      lookup bind (put l k e) = update (lookup bind l) c (some v) := by
  have hput := getElem?_put (l := l) (e := e) hk
  have hkey : ∀ (j : ℕ) (b : α) (w : β), l[j]? = some b → bind b ≠ some (c, w) :=
    lookup_eq_none_iff.mp hnew
  have hdist : Distinct bind (put l k e) := by
    intro i j x y d u w hx hy hbx hby
    rw [hput] at hx hy
    split at hx
    · next hi =>
      cases hx
      rw [he] at hbx
      cases hbx
      split at hy
      · next hj => rw [hi, hj]
      · exact absurd hby (hkey j y w hy)
    · split at hy
      · cases hy
        rw [he] at hby
        cases hby
        exact absurd hbx (hkey i x u hx)
      · exact hd i j x y d u w hx hy hbx hby
  refine ⟨hdist, ?_⟩
  funext d
  apply Option.ext
  intro w
  rw [lookup_eq_some_iff hdist]
  by_cases hdc : d = c
  · subst hdc
    rw [update_self]
    constructor
    · rintro ⟨j, b, hj, hb⟩
      rw [hput] at hj
      split at hj
      · cases hj
        rw [he] at hb
        cases hb
        rfl
      · exact absurd hb (hkey j b w hj)
    · intro hw
      cases hw
      exact ⟨k, e, by rw [hput, if_pos rfl], he⟩
  · rw [update_of_ne hdc, lookup_eq_some_iff hd]
    constructor
    · rintro ⟨j, b, hj, hb⟩
      rw [hput] at hj
      split at hj
      · cases hj
        rw [he] at hb
        cases hb
        exact absurd rfl hdc
      · exact ⟨j, b, hj, hb⟩
    · rintro ⟨j, b, hj, hb⟩
      refine ⟨j, b, ?_, hb⟩
      rw [hput, if_neg]
      · exact hj
      · rintro rfl
        rw [hfree b hj] at hb
        cases hb

/-- Freeing the slot of a key removes exactly that key. -/
theorem erase (hd : Distinct bind l) (ha : l[k]? = some a) (hb : bind a = some (c, v))
    (he : bind e = none) :
    Distinct bind (put l k e) ∧ lookup bind (put l k e) = update (lookup bind l) c none := by
  have hput := getElem?_put (e := e) (List.getElem?_eq_some_iff.mp ha).1.le
  -- the bound slots after the write are those before it, but for slot `k`
  have hold : ∀ (j : ℕ) (b : α) (p : κ × β), (put l k e)[j]? = some b → bind b = some p →
      j ≠ k ∧ l[j]? = some b := by
    intro j b p hj hp
    rw [hput] at hj
    split at hj
    · cases hj
      rw [he] at hp
      cases hp
    · next hjk => exact ⟨hjk, hj⟩
  have hdist : Distinct bind (put l k e) := by
    intro i j x y d u w hx hy hbx hby
    exact hd i j x y d u w (hold i x _ hx hbx).2 (hold j y _ hy hby).2 hbx hby
  refine ⟨hdist, ?_⟩
  funext d
  by_cases hdc : d = c
  · subst hdc
    rw [update_self, lookup_eq_none_iff]
    intro j b w hj hw
    obtain ⟨hjk, hj'⟩ := hold j b _ hj hw
    exact hjk (hd j k b a d w v hj' ha hw hb)
  · rw [update_of_ne hdc]
    apply Option.ext
    intro w
    rw [lookup_eq_some_iff hdist, lookup_eq_some_iff hd]
    constructor
    · rintro ⟨j, b, hj, hw⟩
      exact ⟨j, b, (hold j b _ hj hw).2, hw⟩
    · rintro ⟨j, b, hj, hw⟩
      refine ⟨j, b, ?_, hw⟩
      rw [hput, if_neg]
      · exact hj
      · rintro rfl
        rw [ha] at hj
        cases hj
        rw [hb] at hw
        cases hw
        exact hdc rfl

end SlotMap
