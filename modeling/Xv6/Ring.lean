import Mathlib.Data.List.Nodup
import Mathlib.Logic.Function.Basic

/-!
# Doubly linked rings

Nodes linked by `next` and `prev` into one cycle through a head node. The head is
`none`, so that the list of the other nodes determines the ring.
-/
namespace Ring

variable {α : Type*}

structure Links (α : Type*) where
  next : Option α → Option α
  prev : Option α → Option α

/-- Following `next` from `x` visits the nodes of the list and then `y`, and
`prev` leads back. -/
def Seg (L : Links α) : Option α → List α → Option α → Prop
  | x, [], y => L.next x = y ∧ L.prev y = x
  | x, a :: l, y => L.next x = some a ∧ L.prev (some a) = x ∧ Seg L (some a) l y

/-- The links form one cycle through the head with the nodes of the list. -/
structure IsRing (L : Links α) (l : List α) : Prop where
  nodup : l.Nodup
  seg : Seg L none l none

variable {L : Links α} {x y : Option α}

lemma seg_append {l₁ l₂ : List α} {a : α} :
    Seg L x (l₁ ++ a :: l₂) y ↔ Seg L x l₁ (some a) ∧ Seg L (some a) l₂ y := by
  induction l₁ generalizing x with
  | nil => simp [Seg, and_assoc]
  | cons b l ih => simp [Seg, ih, and_assoc]

variable {l : List α}

lemma Seg.congr {L L' : Links α} (h : Seg L x l y)
    (hnext : ∀ z, z = x ∨ z ∈ l.map some → L'.next z = L.next z)
    (hprev : ∀ z, z = y ∨ z ∈ l.map some → L'.prev z = L.prev z) : Seg L' x l y := by
  induction l generalizing x with
  | nil =>
    obtain ⟨hn, hp⟩ := h
    exact ⟨by rw [hnext x (.inl rfl), hn], by rw [hprev y (.inl rfl), hp]⟩
  | cons a l ih =>
    obtain ⟨hn, hp, hs⟩ := h
    refine ⟨by rw [hnext x (.inl rfl), hn], by rw [hprev _ (.inr (by simp)), hp], ?_⟩
    refine ih hs (fun z hz => hnext z (.inr ?_)) (fun z hz => hprev z ?_)
    · obtain rfl | hz := hz
      · simp
      · exact List.mem_cons_of_mem _ hz
    · obtain rfl | hz := hz
      · exact .inl rfl
      · exact .inr (List.mem_cons_of_mem _ hz)

lemma Seg.prev_mem (h : Seg L x l y) : L.prev y = x ∧ l = [] ∨ L.prev y ∈ l.map some := by
  induction l generalizing x with
  | nil => exact .inl ⟨h.2, rfl⟩
  | cons a l ih =>
    obtain ⟨-, -, hs⟩ := h
    obtain ⟨hp, rfl⟩ | hp := ih hs
    · exact .inr (by simp [hp])
    · exact .inr (List.mem_cons_of_mem _ hp)

/-- A segment whose last node is made to point to `z` instead of `y`. -/
lemma Seg.retarget {L L' : Links α} {x y z : Option α} (h : Seg L x l y)
    (hnodup : (x :: l.map some).Nodup)
    (hnext : ∀ w, w = x ∨ w ∈ l.map some → w ≠ L.prev y → L'.next w = L.next w)
    (hprev : ∀ w ∈ l.map some, L'.prev w = L.prev w) (hlast : L'.next (L.prev y) = z)
    (hz : L'.prev z = L.prev y) : Seg L' x l z := by
  induction l generalizing x with
  | nil =>
    have hx : L.prev y = x := h.2
    rw [hx] at hlast hz
    exact ⟨hlast, hz⟩
  | cons a l ih =>
    obtain ⟨hn, hp, hs⟩ := h
    simp only [List.map_cons, List.nodup_cons] at hnodup ⊢
    have hx : x ≠ L.prev y := by
      rintro rfl
      obtain ⟨he, -⟩ | he := hs.prev_mem
      · exact hnodup.1 (by simp [he])
      · exact hnodup.1 (List.mem_cons_of_mem _ he)
    refine ⟨by rw [hnext x (.inl rfl) hx, hn], by rw [hprev _ (by simp), hp], ?_⟩
    refine ih hs (by simpa using hnodup.2) (fun w hw => hnext w (.inr ?_))
      (fun w hw => hprev w (List.mem_cons_of_mem _ hw))
    obtain rfl | hw := hw
    · simp
    · exact List.mem_cons_of_mem _ hw

section Scan

/-- Walk along `next` from a node to the first one that satisfies `p`, and stop at
the head. -/
def scan (L : Links α) (p : α → Bool) : ℕ → Option α → Option α
  | 0, _ => none
  | _ + 1, none => none
  | fuel + 1, some a => if p a then some a else scan L p fuel (L.next (some a))

lemma Seg.scan_eq {p : α → Bool} {x : Option α} {fuel : ℕ} (h : Seg L x l none)
    (hfuel : l.length < fuel) : scan L p fuel (L.next x) = l.find? p := by
  induction l generalizing x fuel with
  | nil =>
    obtain ⟨fuel, rfl⟩ := Nat.exists_eq_add_one.mpr (show 0 < fuel by simpa using hfuel)
    simp [h.1, scan]
  | cons a l ih =>
    simp only [List.length_cons] at hfuel
    obtain ⟨fuel, rfl⟩ := Nat.exists_eq_add_one.mpr (show 0 < fuel by omega)
    obtain ⟨hn, -, hs⟩ := h
    rw [hn, scan, List.find?_cons]
    cases hp : p a with
    | true => simp
    | false => simpa using ih hs (by omega)

/-- The search `for (b = head.next; b != &head; b = b->next)`. -/
theorem IsRing.scan_next {p : α → Bool} (h : IsRing L l) {fuel : ℕ} (hfuel : l.length < fuel) :
    scan L p fuel (L.next none) = l.find? p :=
  h.seg.scan_eq hfuel

/-- The links read backwards. -/
def Links.flip (L : Links α) : Links α := ⟨L.prev, L.next⟩

lemma Seg.flip (h : Seg L x l y) : Seg L.flip y l.reverse x := by
  induction l generalizing x with
  | nil => exact ⟨h.2, h.1⟩
  | cons a l ih =>
    obtain ⟨hn, hp, hs⟩ := h
    rw [List.reverse_cons]
    exact seg_append.mpr ⟨ih hs, hp, hn⟩

/-- The search `for (b = head.prev; b != &head; b = b->prev)`. -/
theorem IsRing.scan_prev {p : α → Bool} (h : IsRing L l) {fuel : ℕ} (hfuel : l.length < fuel) :
    scan L.flip p fuel (L.prev none) = l.reverse.find? p :=
  h.seg.flip.scan_eq (by simpa using hfuel)

end Scan

section Move

variable [DecidableEq α]

/-- `x->next = y`. -/
def Links.setNext (L : Links α) (x y : Option α) : Links α :=
  { L with next := Function.update L.next x y }

/-- `x->prev = y`. -/
def Links.setPrev (L : Links α) (x y : Option α) : Links α :=
  { L with prev := Function.update L.prev x y }

/-- Take a node out of the ring. -/
def Links.unlink (L : Links α) (b : α) : Links α :=
  let L := L.setPrev (L.next (some b)) (L.prev (some b))
  L.setNext (L.prev (some b)) (L.next (some b))

/-- Link a node behind the head. -/
def Links.pushFront (L : Links α) (b : α) : Links α :=
  let L := L.setNext (some b) (L.next none)
  let L := L.setPrev (some b) none
  let L := L.setPrev (L.next none) (some b)
  L.setNext none (some b)

lemma unlink_eq (L : Links α) (b : α) : L.unlink b =
    ⟨Function.update L.next (L.prev (some b)) (L.next (some b)),
      Function.update L.prev (L.next (some b)) (L.prev (some b))⟩ := by
  have hprev : Function.update L.prev (L.next (some b)) (L.prev (some b)) (some b) =
      L.prev (some b) := by
    by_cases hb : some b = L.next (some b)
    · rw [← hb, Function.update_self]
    · rw [Function.update_of_ne hb]
  simp [Links.unlink, Links.setNext, Links.setPrev, hprev]

lemma IsRing.unlink {l₁ l₂ : List α} {b : α} (h : IsRing L (l₁ ++ b :: l₂)) :
    IsRing (L.unlink b) (l₁ ++ l₂) := by
  obtain ⟨hnodup, hseg⟩ := h
  obtain ⟨hs₁, hs₂⟩ := seg_append.mp hseg
  rw [List.nodup_middle, List.nodup_cons] at hnodup
  obtain ⟨hb, hnodup⟩ := hnodup
  have hnd₁ : (none :: l₁.map some).Nodup := by
    simpa using hnodup.of_append_left.map fun _ _ he => Option.some.inj he
  rw [unlink_eq]
  refine ⟨hnodup, ?_⟩
  cases l₂ with
  | nil =>
    rw [List.append_nil, hs₂.1]
    refine hs₁.retarget hnd₁ ?_ ?_ ?_ ?_
    · intro w _ hw
      exact Function.update_of_ne hw _ _
    · intro w hw
      refine Function.update_of_ne ?_ _ _
      rintro rfl
      simp at hw
    · exact Function.update_self _ _ _
    · exact Function.update_self none _ L.prev
  | cons c l₂ =>
    obtain ⟨hn, -, hs₂⟩ := hs₂
    have hc : some c ∉ l₁.map some ∧ some c ∉ l₂.map some := by
      have := List.nodup_append.mp hnodup
      simp only [List.nodup_cons, List.mem_cons] at this
      constructor
      · intro hmem
        obtain ⟨a, ha, he⟩ := List.mem_map.mp hmem
        exact this.2.2 a ha c (.inl rfl) (Option.some.inj he)
      · simpa using this.2.1.1
    rw [hn]
    refine seg_append.mpr ⟨hs₁.retarget hnd₁ ?_ ?_ ?_ ?_, hs₂.congr ?_ ?_⟩
    · intro w _ hw
      exact Function.update_of_ne hw _ _
    · intro w hw
      refine Function.update_of_ne ?_ _ _
      rintro rfl
      exact hc.1 hw
    · exact Function.update_self _ _ _
    · exact Function.update_self _ _ _
    · -- the nodes behind `b` are not the one before it
      intro z hz
      refine Function.update_of_ne ?_ _ _
      rintro rfl
      obtain ⟨hp, -⟩ | hp := hs₁.prev_mem
      · simp [hp] at hz
      · obtain ⟨a, ha, hpa⟩ := List.mem_map.mp hp
        have hdisj := (List.nodup_append.mp hnodup).2.2 a ha
        rw [← hpa] at hz
        obtain hz | hz := hz
        · exact hdisj c (by simp) (Option.some.inj hz)
        · exact hdisj a (List.mem_cons_of_mem _ (by simpa using hz)) rfl
    · intro z hz
      refine Function.update_of_ne ?_ _ _
      rintro rfl
      obtain hz | hz := hz
      · simp at hz
      · exact hc.2 hz

lemma IsRing.pushFront {b : α} (h : IsRing L l) (hb : b ∉ l) : IsRing (L.pushFront b) (b :: l) := by
  obtain ⟨hnodup, hseg⟩ := h
  have heq : L.pushFront b =
      ⟨Function.update (Function.update L.next (some b) (L.next none)) none (some b),
        Function.update (Function.update L.prev (some b) none) (L.next none) (some b)⟩ := by
    simp [Links.pushFront, Links.setNext, Links.setPrev]
  rw [heq]
  refine ⟨List.nodup_cons.mpr ⟨hb, hnodup⟩, ?_⟩
  cases l with
  | nil =>
    rw [hseg.1]
    simp [Seg]
  | cons a l =>
    obtain ⟨hn, -, hs⟩ := hseg
    have hab : a ≠ b := by
      rintro rfl
      exact hb (by simp)
    rw [hn]
    refine ⟨by simp, by simp [hab.symm], by simp, by simp, hs.congr ?_ ?_⟩
    · intro z hz
      have hz0 : z ≠ none := by
        rintro rfl
        simp at hz
      have hzb : z ≠ some b := by
        rintro rfl
        obtain hz | hz := hz
        · exact hab (Option.some.inj hz).symm
        · exact hb (List.mem_cons_of_mem _ (by simpa using hz))
      simp [hz0, hzb]
    · intro z hz
      have hza : z ≠ some a := by
        rintro rfl
        obtain hz | hz := hz
        · simp at hz
        · exact (List.nodup_cons.mp hnodup).1 (by simpa using hz)
      have hzb : z ≠ some b := by
        rintro rfl
        obtain hz | hz := hz
        · simp at hz
        · exact hb (List.mem_cons_of_mem _ (by simpa using hz))
      simp [hza, hzb]

/-- Linking the nodes of a list one after the other behind a head that points to
itself. -/
lemma IsRing.foldl_pushFront (h : IsRing L l) (l' : List α) (hnodup : (l' ++ l).Nodup) :
    IsRing (l'.foldl Links.pushFront L) (l'.reverse ++ l) := by
  induction l' generalizing L l with
  | nil => simpa using h
  | cons a l' ih =>
    have ha : a ∉ l' ∧ a ∉ l := by simpa using (List.nodup_cons.mp hnodup).1
    have hmid : (l' ++ a :: l).Nodup := by
      rw [List.nodup_middle]
      simpa using hnodup
    simpa using ih (h.pushFront ha.2) hmid

/-- Moving a node to the front keeps the ring with the same nodes. -/
theorem IsRing.moveFront (h : IsRing L l) {b : α} (hb : b ∈ l) :
    IsRing ((L.unlink b).pushFront b) (b :: l.erase b) := by
  obtain ⟨l₁, l₂, rfl⟩ := List.append_of_mem hb
  have hnodup := h.nodup
  rw [List.nodup_middle, List.nodup_cons] at hnodup
  have herase : (l₁ ++ b :: l₂).erase b = l₁ ++ l₂ := by
    have hb₁ : b ∉ l₁ := fun hm => hnodup.1 (List.mem_append_left _ hm)
    rw [List.erase_append_right _ hb₁, List.erase_cons_head]
  rw [herase]
  exact h.unlink.pushFront hnodup.1

end Move

end Ring
