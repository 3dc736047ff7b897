import Xv6.Grep

/-!
# What the matcher matches

A pattern is read from left to right as a list of items. Each consumes a part of the text,
and what the last one leaves is unconstrained. Without `^` in front the items may start
anywhere in the text.
-/
namespace Xv6.Grep

/-- What a pattern consists of. -/
inductive Item where
  /-- `x*`; any characters if `x` is a point. -/
  | star (x : UInt8)
  /-- `$` at the end of the pattern. -/
  | eot
  /-- A point. -/
  | any
  | lit (x : UInt8)

def single (c : UInt8) : Item := if c = '.'.toUInt8 then .any else .lit c

def items : List UInt8 → List Item
  | [] => []
  | [c] => [if c = '$'.toUInt8 then .eot else single c]
  | c :: d :: re => if d = '*'.toUInt8 then .star c :: items re else single c :: items (d :: re)

/-- An item takes `text` to what is left of it. -/
def Item.Consumes : Item → List UInt8 → List UInt8 → Prop
  | .star x, text, rest => ∃ u, text = u ++ rest ∧ ∀ y ∈ u, y = x ∨ x = '.'.toUInt8
  | .eot, text, rest => text = [] ∧ rest = []
  | .any, text, rest => ∃ y, text = y :: rest
  | .lit x, text, rest => text = x :: rest

def Consume : List Item → List UInt8 → List UInt8 → Prop
  | [], text, rest => text = rest
  | i :: is, text, rest => ∃ t, i.Consumes text t ∧ Consume is t rest

/-- The texts that begin as the items say. -/
def Begins (is : List Item) (text : List UInt8) : Prop := ∃ rest, Consume is text rest

def language (re : List UInt8) : Set (List UInt8) :=
  if re.head? = some '^'.toUInt8 then {text | Begins (items re.tail) text}
  else {text | ∃ u v, text = u ++ v ∧ Begins (items re) v}

lemma begins_nil (text : List UInt8) : Begins [] text := ⟨text, rfl⟩

variable {is : List Item} {text : List UInt8}

lemma begins_cons {i : Item} : Begins (i :: is) text ↔ ∃ t, i.Consumes text t ∧ Begins is t := by
  constructor
  · intro h
    obtain ⟨rest, t, hi, his⟩ := h
    exact ⟨t, hi, rest, his⟩
  · intro h
    obtain ⟨t, hi, rest, his⟩ := h
    exact ⟨rest, t, hi, his⟩

lemma begins_eot : Begins [.eot] text ↔ text = [] := by
  rw [begins_cons]
  constructor
  · intro h
    obtain ⟨t, ht, -⟩ := h
    exact ht.1
  · intro h
    exact ⟨[], ⟨h, rfl⟩, begins_nil []⟩

lemma begins_single {c y : UInt8} :
    Begins (single c :: is) (y :: text) ↔ (c = '.'.toUInt8 ∨ c = y) ∧ Begins is text := by
  rw [begins_cons, single]
  split
  · next hc =>
    constructor
    · intro h
      obtain ⟨t, ⟨z, hz⟩, ht⟩ := h
      obtain ⟨rfl, rfl⟩ := List.cons.inj hz
      exact ⟨Or.inl hc, ht⟩
    · intro h
      exact ⟨text, ⟨y, rfl⟩, h.2⟩
  · next hc =>
    constructor
    · intro h
      obtain ⟨t, hz, ht⟩ := h
      obtain ⟨rfl, rfl⟩ := List.cons.inj hz
      exact ⟨Or.inr rfl, ht⟩
    · intro h
      obtain ⟨hc' | rfl, ht⟩ := h
      · exact absurd hc' hc
      · exact ⟨text, rfl, ht⟩

lemma not_begins_single {c : UInt8} : ¬ Begins (single c :: is) [] := by
  rw [begins_cons, single]
  intro h
  obtain ⟨t, ht, -⟩ := h
  split at ht
  · obtain ⟨y, hy⟩ := ht
    cases hy
  · cases ht

lemma begins_star_nil {c : UInt8} : Begins (.star c :: is) [] ↔ Begins is [] := by
  rw [begins_cons]
  constructor
  · intro h
    obtain ⟨t, ⟨u, hu, -⟩, ht⟩ := h
    obtain ⟨rfl, rfl⟩ := List.append_eq_nil_iff.mp hu.symm
    exact ht
  · intro h
    exact ⟨[], ⟨[], rfl, fun y hy => absurd hy List.not_mem_nil⟩, h⟩

lemma begins_star_cons {c y : UInt8} : Begins (.star c :: is) (y :: text) ↔
      Begins is (y :: text) ∨ (y = c ∨ c = '.'.toUInt8) ∧ Begins (.star c :: is) text := by
  rw [begins_cons, begins_cons]
  constructor
  · intro h
    obtain ⟨t, ⟨u, hu, hall⟩, ht⟩ := h
    cases u with
    | nil => exact Or.inl (hu ▸ ht)
    | cons z u =>
      obtain ⟨rfl, rfl⟩ := List.cons.inj hu
      refine Or.inr ⟨hall y List.mem_cons_self, t, ⟨u, rfl, ?_⟩, ht⟩
      intro x hx
      exact hall x (List.mem_cons_of_mem y hx)
  · intro h
    obtain h | ⟨hy, t, ⟨u, rfl, hall⟩, ht⟩ := h
    · exact ⟨y :: text, ⟨[], rfl, fun x hx => absurd hx List.not_mem_nil⟩, h⟩
    · refine ⟨t, ⟨y :: u, rfl, ?_⟩, ht⟩
      intro x hx
      obtain rfl | hx := List.mem_cons.mp hx
      · exact hy
      · exact hall x hx

section

variable {c d : UInt8} {re text : List UInt8}

/-- The loop of `matchstar`, when `matchhere` is right about what follows the star. -/
lemma matchstar_iff (hre : ∀ text, 0 ∉ text → (matchhere re text = true ↔ Begins is text))
    (h0 : 0 ∉ text) : matchstar c re text = true ↔ Begins (.star c :: is) text := by
  induction text with
  | nil =>
    rw [matchstar_nil, begins_star_nil, ← hre [] h0]
  | cons y text ih =>
    have hy : y ≠ 0 := fun he => h0 (he ▸ List.mem_cons_self)
    rw [matchstar_cons, begins_star_cons, ← hre _ h0, ← ih fun hc => h0 (List.mem_cons_of_mem y hc)]
    split
    · next hm => exact ⟨fun _ => Or.inl hm, fun _ => rfl⟩
    · next hm =>
      split
      · next hyc => exact ⟨fun h => Or.inr ⟨hyc.2, h⟩, fun h => (h.resolve_left hm).2⟩
      · next hyc =>
        refine ⟨fun h => absurd h Bool.false_ne_true, fun h => ?_⟩
        exact absurd ⟨hy, (h.resolve_left hm).1⟩ hyc

/-- One character of the pattern that is neither starred nor the last `$`. -/
lemma matchhere_single (hc : c ≠ 0) (hstar : charAt re 0 ≠ '*'.toUInt8)
    (hend : ¬ (c = '$'.toUInt8 ∧ charAt re 0 = 0)) (h0 : 0 ∉ text)
    (hre : ∀ text, 0 ∉ text → (matchhere re text = true ↔ Begins (items re) text)) :
    matchhere (c :: re) text = true ↔ Begins (single c :: items re) text := by
  rw [matchhere_cons, if_neg hc, if_neg hstar, if_neg hend]
  cases text with
  | nil => exact ⟨fun h => by simp [charAt_nil] at h, fun h => absurd h not_begins_single⟩
  | cons y text =>
    have hy : y ≠ 0 := fun he => h0 (he ▸ List.mem_cons_self)
    rw [begins_single, ← hre text fun hc => h0 (List.mem_cons_of_mem y hc)]
    split
    · next hm => exact ⟨fun h => ⟨hm.2, h⟩, fun h => h.2⟩
    · next hm => exact ⟨fun h => absurd h Bool.false_ne_true, fun h => absurd ⟨hy, h.1⟩ hm⟩

theorem matchhere_iff (hre : 0 ∉ re) (h0 : 0 ∉ text) :
    matchhere re text = true ↔ Begins (items re) text := by
  -- along the reading of the pattern: a star takes two characters, other items one
  induction re using items.induct generalizing text with
  | case1 => exact ⟨fun _ => begins_nil text, fun _ => matchhere_nil⟩
  | case2 c =>
    have hc : c ≠ 0 := fun he => hre (he ▸ List.mem_cons_self)
    by_cases hend : c = '$'.toUInt8
    · rw [items, if_pos hend, begins_eot, matchhere_cons, if_neg hc, if_neg (by decide),
        if_pos ⟨hend, rfl⟩]
      cases text with
      | nil => simp [charAt_nil]
      | cons y text =>
        have hy : y ≠ 0 := fun he => h0 (he ▸ List.mem_cons_self)
        simp [charAt_cons, hy]
    · rw [items, if_neg hend]
      refine matchhere_single hc (by decide) (fun h => hend h.1) h0 fun t _ => ?_
      exact ⟨fun _ => begins_nil t, fun _ => matchhere_nil⟩
  | case3 c re ih =>
    have hc : c ≠ 0 := fun he => hre (he ▸ List.mem_cons_self)
    rw [items, if_pos rfl, matchhere_cons, if_neg hc, if_pos charAt_cons]
    refine matchstar_iff (fun t ht => ih ?_ ht) h0
    intro hm
    exact hre (List.mem_cons_of_mem _ (List.mem_cons_of_mem _ hm))
  | case4 c d re hd ih =>
    have hc : c ≠ 0 := fun he => hre (he ▸ List.mem_cons_self)
    have hre' : 0 ∉ d :: re := fun hm => hre (List.mem_cons_of_mem c hm)
    have hd0 : d ≠ 0 := fun he => hre' (he ▸ List.mem_cons_self)
    rw [items, if_neg hd]
    exact matchhere_single hc hd (fun h => hd0 h.2) h0 fun t ht => ih hre' ht

/-- The loop of `match` tries every position, the end of the text included. -/
lemma matchLoop_iff (hre : 0 ∉ re) (h0 : 0 ∉ text) :
    matchLoop re text = true ↔ ∃ u v, text = u ++ v ∧ Begins (items re) v := by
  induction text with
  | nil =>
    rw [matchLoop_nil, matchhere_iff hre h0]
    constructor
    · intro h
      exact ⟨[], [], rfl, h⟩
    · intro h
      obtain ⟨u, v, huv, h⟩ := h
      obtain ⟨rfl, rfl⟩ := List.append_eq_nil_iff.mp huv.symm
      exact h
  | cons y text ih =>
    have hy : y ≠ 0 := fun he => h0 (he ▸ List.mem_cons_self)
    rw [matchLoop_cons, if_pos hy]
    split
    · next hm =>
      refine ⟨fun _ => ⟨[], y :: text, rfl, (matchhere_iff hre h0).mp hm⟩, fun _ => rfl⟩
    · next hm =>
      rw [ih fun hc => h0 (List.mem_cons_of_mem y hc)]
      constructor
      · intro h
        obtain ⟨u, v, rfl, h⟩ := h
        exact ⟨y :: u, v, rfl, h⟩
      · intro h
        obtain ⟨u, v, huv, h⟩ := h
        cases u with
        | nil => exact absurd ((matchhere_iff hre h0).mpr (huv ▸ h)) hm
        | cons z u =>
          obtain ⟨rfl, rfl⟩ := List.cons.inj huv
          exact ⟨u, v, rfl, h⟩

end

/-- A pattern without zeros matches the texts of its language. -/
theorem isMatch_iff {re text : List UInt8} (hre : 0 ∉ re) (h0 : 0 ∉ text) :
    isMatch re text = true ↔ text ∈ language re := by
  rw [isMatch, language]
  cases re with
  | nil => exact matchLoop_iff hre h0
  | cons c re =>
    by_cases hc : c = '^'.toUInt8
    · subst hc
      exact matchhere_iff (fun hm => hre (List.mem_cons_of_mem _ hm)) h0
    · have hhead : ¬ (c :: re).head? = some '^'.toUInt8 := fun h => hc (Option.some.inj h)
      rw [charAt_cons, if_neg hc, if_neg hhead]
      exact matchLoop_iff hre h0

/-- `a*$` matches `baa`: the star takes the last two characters. -/
theorem isMatch_star_end : isMatch [97, 42, 36] [98, 97, 97] = true := by
  have hstar : (Item.star 97).Consumes [97, 97] [] :=
    ⟨[97, 97], rfl, fun y hy => Or.inl (by simpa using hy)⟩
  have hbegins : Begins (items [97, 42, 36]) [97, 97] := ⟨[], [], hstar, [], ⟨rfl, rfl⟩, rfl⟩
  exact (isMatch_iff (by decide) (by decide)).mpr ⟨[98], [97, 97], rfl, hbegins⟩

end Xv6.Grep
