import Xv6.VirtioDisk

/-!
# Allocation of descriptors

What `alloc3_desc` and `free_chain` do to the table of descriptors. Neither panics when
the descriptors that it gives back are in use.
-/
namespace Xv6.Virtio

open Function

variable {B : Type*} {d d' : Disk B} {i : Fin NUM}

lemma allocDesc_eq_some (h : allocDesc d = some (i, d')) :
    d.free i = true ∧ d' = { d with free := update d.free i false } := by
  simp only [allocDesc, Option.map_eq_some_iff, Prod.mk.injEq] at h
  obtain ⟨j, hj, rfl, rfl⟩ := h
  exact ⟨List.find?_some hj, rfl⟩

lemma freeDesc_of_used (h : d.free i = false) :
    freeDesc d i = some { d with desc := update d.desc i .zero, free := update d.free i true } := by
  simp [freeDesc, h]

/-- `d'` is `d` after the descriptors of `idx` were given back. -/
structure GivenBack (idx : List (Fin NUM)) (d d' : Disk B) : Prop where
  free : ∀ i, d'.free i = true ↔ i ∈ idx ∨ d.free i = true
  desc : ∀ i, d.free i = false → i ∉ idx → d'.desc i = d.desc i
  rest : d' = { d with free := d'.free, desc := d'.desc }

lemma freeDescs_of_used : ∀ (idx : List (Fin NUM)) (d : Disk B), idx.Nodup →
    (∀ i ∈ idx, d.free i = false) →
    ∃ d', idx.foldlM (fun d (i : Fin NUM) => freeDesc d i) d = some d' ∧ GivenBack idx d d'
  | [], d, _, _ => ⟨d, rfl, by simp, fun _ _ _ => rfl, rfl⟩
  | i :: idx, d, hnodup, hused => by
    obtain ⟨hi, hidx⟩ := List.nodup_cons.mp hnodup
    have hfree := freeDesc_of_used (hused i (List.mem_cons_self ..))
    obtain ⟨d', hd', hback⟩ := freeDescs_of_used idx
      { d with desc := update d.desc i .zero, free := update d.free i true } hidx fun j hj => by
        have hji : j ≠ i := fun he => hi (he ▸ hj)
        simpa [hji] using hused j (List.mem_cons_of_mem _ hj)
    refine ⟨d', by simp [List.foldlM_cons, hfree, hd'], fun j => ?_, fun j hj hji => ?_, hback.rest⟩
    · rw [hback.free]
      by_cases hj : j = i <;> simp [hj]
    · rw [List.mem_cons, not_or] at hji
      rw [hback.desc j (by simpa [hji.1] using hj) hji.2]
      simp [hji.1]

/-- With the descriptors of `idx` taken, the loop either takes `k` more, which were free, or
gives back what was taken. -/
theorem allocLoop_spec : ∀ (k : ℕ) (idx : List (Fin NUM)) (d : Disk B), idx.Nodup →
    (∀ i ∈ idx, d.free i = false) →
    (∃ l, l.length = k ∧ (idx ++ l).Nodup ∧ (∀ i ∈ l, d.free i = true) ∧
      allocLoop k idx d =
        some ({ d with free := fun i => if i ∈ l then false else d.free i }, some (idx ++ l))) ∨
    ∃ d', GivenBack idx d d' ∧ allocLoop k idx d = some (d', none)
  | 0, idx, d, hnodup, _ => .inl ⟨[], rfl, by simpa using hnodup, by simp, by simp [allocLoop]⟩
  | k + 1, idx, d, hnodup, hused => by
    cases hd : allocDesc d with
    | none =>
      obtain ⟨d', hd', hback⟩ := freeDescs_of_used idx d hnodup hused
      exact .inr ⟨d', hback, by simp [allocLoop, hd, hd']⟩
    | some p =>
      obtain ⟨i, d₁⟩ := p
      obtain ⟨hi, rfl⟩ := allocDesc_eq_some hd
      have hidx : i ∉ idx := fun hmem => by simp [hused i hmem] at hi
      have hnodup' : (idx ++ [i]).Nodup := by
        rw [List.nodup_append]
        refine ⟨hnodup, by simp, fun j hj l hl he => hidx ?_⟩
        rwa [← List.mem_singleton.mp hl, ← he]
      have hused' : ∀ j ∈ idx ++ [i], update d.free i false j = false := fun j hj => by
        by_cases hji : j = i
        · simp [hji]
        · have hmem : j ∈ idx := by simpa [hji] using hj
          simp [hji, hused j hmem]
      obtain ⟨l, hlen, hl, hfree, hrun⟩ | ⟨d', hback, hrun⟩ :=
        allocLoop_spec k (idx ++ [i]) { d with free := update d.free i false } hnodup' hused'
      · -- the later rounds take other descriptors
        have hil : i ∉ l := fun hmem => by simpa using hfree i hmem
        refine .inl ⟨i :: l, by simp [hlen], by simpa using hl, fun j hj => ?_, ?_⟩
        · obtain rfl | hj := List.mem_cons.mp hj
          · exact hi
          · have hji : j ≠ i := fun he => hil (he ▸ hj)
            simpa [hji] using hfree j hj
        · have hsame : (fun j => if j ∈ l then false else update d.free i false j) =
              fun j => if j ∈ i :: l then false else d.free j := by
            funext j
            by_cases hji : j = i <;> simp [hji, hil]
          simp only [allocLoop, hd, hrun, List.append_assoc, List.cons_append, List.nil_append, hsame]
      · refine .inr ⟨d', ⟨fun j => ?_, fun j hj hji => ?_, hback.rest⟩, by
          simp only [allocLoop, hd, hrun]⟩
        · rw [hback.free]
          by_cases hji : j = i
          · simp [hji, hi]
          · simp [hji]
        · have hne : j ≠ i := fun he => by simp [he, hi] at hj
          exact hback.desc j (by simpa [hne] using hj) (by simp [hji, hne])

theorem alloc3Desc_spec (d : Disk B) :
    (∃ i j k, [i, j, k].Nodup ∧ (∀ l ∈ [i, j, k], d.free l = true) ∧
      alloc3Desc d =
        some ({ d with free := fun l => if l ∈ [i, j, k] then false else d.free l },
          some [i, j, k])) ∨
    ∃ d', GivenBack [] d d' ∧ alloc3Desc d = some (d', none) := by
  obtain ⟨l, hlen, hnodup, hfree, hrun⟩ | hnone := allocLoop_spec 3 [] d (by simp) (by simp)
  · obtain ⟨i, j, k, rfl⟩ := List.length_eq_three.mp hlen
    exact .inl ⟨i, j, k, by simpa using hnodup, hfree, hrun⟩
  · exact .inr hnone

/-- The chain of a request, as the descriptors link it. -/
structure Linked (d : Disk B) (i j k : Fin NUM) : Prop where
  first : (d.desc i).flags &&& VRING_DESC_F_NEXT ≠ 0 ∧ (d.desc i).next = j
  second : (d.desc j).flags &&& VRING_DESC_F_NEXT ≠ 0 ∧ (d.desc j).next = k
  third : (d.desc k).flags &&& VRING_DESC_F_NEXT = 0

/-- One round of the loop of `free_chain`. -/
lemma freeChainLoop_of_used {fuel : ℕ} (h : d.free i = false) :
    freeChainLoop (fuel + 1) d i =
      if (d.desc i).flags &&& VRING_DESC_F_NEXT ≠ 0 then
        freeChainLoop fuel
          { d with desc := update d.desc i .zero, free := update d.free i true } (d.desc i).next
      else some { d with desc := update d.desc i .zero, free := update d.free i true } := by
  simp [freeChainLoop, freeDesc_of_used h]

/-- `free_chain` gives back exactly the three descriptors. -/
theorem freeChain_spec {i j k : Fin NUM} (hlinked : Linked d i j k) (hnodup : [i, j, k].Nodup)
    (hused : ∀ l ∈ [i, j, k], d.free l = false) :
    ∃ d', freeChain d i = some d' ∧ GivenBack [i, j, k] d d' := by
  obtain ⟨d', hd', hback⟩ := freeDescs_of_used [i, j, k] d hnodup hused
  refine ⟨d', ?_, hback⟩
  simp only [List.nodup_cons, List.mem_cons, List.not_mem_nil, or_false, not_or] at hnodup
  obtain ⟨⟨hij, hik⟩, hjk, -⟩ := hnodup
  have hi : d.free i = false := hused i (by simp)
  have hj : update d.free i true j = false := by
    rw [update_of_ne (Ne.symm hij)]
    exact hused j (by simp)
  have hk : update (update d.free i true) j true k = false := by
    rw [update_of_ne (Ne.symm hjk), update_of_ne (Ne.symm hik)]
    exact hused k (by simp)
  rw [← hd', List.foldlM_cons, freeDesc_of_used hi, Option.bind_eq_bind, Option.bind_some,
    List.foldlM_cons, freeDesc_of_used hj, Option.bind_eq_bind, Option.bind_some, List.foldlM_cons,
    freeDesc_of_used hk, freeChain, freeChainLoop_of_used hi, if_pos hlinked.first.1,
    hlinked.first.2, freeChainLoop_of_used hj]
  simp only [update_of_ne (Ne.symm hij), if_pos hlinked.second.1, hlinked.second.2]
  rw [freeChainLoop_of_used hk]
  simp only [update_of_ne (Ne.symm hjk), update_of_ne (Ne.symm hik), hlinked.third, ne_eq,
    not_true_eq_false, if_false]
  rfl

end Xv6.Virtio
