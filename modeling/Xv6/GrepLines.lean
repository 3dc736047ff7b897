import Xv6.Grep

/-!
# The lines that `grep` writes

Lines are put together from the pieces that `read` returns. A line is written when its
newline is in the buffer, so what follows the last newline is never written, and a line that
fills the buffer ends the program.
-/
namespace Xv6.Grep

/-- The lines of a text, each with its newline; the last one may have none. -/
def lines : List UInt8 → List (List UInt8)
  | [] => []
  | c :: s =>
    if c = newline then [c] :: lines s
    else
      match lines s with
      | [] => [[c]]
      | l :: ls => (c :: l) :: ls

def body (line : List UInt8) : List UInt8 := line.takeWhile (· ≠ newline)

/-- The lines that match, one after the other. -/
def matching (pattern : List UInt8) (ls : List (List UInt8)) : List UInt8 :=
  (ls.filter fun l => isMatch pattern (body l)).flatten

variable {pattern : List UInt8}

lemma matching_append (ls ls' : List (List UInt8)) :
    matching pattern (ls ++ ls') = matching pattern ls ++ matching pattern ls' := by
  rw [matching, List.filter_append, List.flatten_append]
  rfl

lemma body_line {l : List UInt8} (hl : newline ∉ l) : body (l ++ [newline]) = l := by
  rw [body, List.takeWhile_append_of_pos]
  · simp
  · intro c hc
    exact decide_eq_true fun he => hl (he ▸ hc)

lemma matching_single {l : List UInt8} (hl : newline ∉ l) :
    matching pattern [l ++ [newline]] = if isMatch pattern l then l ++ [newline] else [] := by
  rw [matching, List.filter_cons, body_line hl]
  split <;> simp

lemma lines_line {l : List UInt8} (hl : newline ∉ l) (s : List UInt8) :
    lines (l ++ newline :: s) = (l ++ [newline]) :: lines s := by
  induction l with
  | nil => rw [List.nil_append, lines, if_pos rfl, List.nil_append]
  | cons c l ih =>
    have hc : c ≠ newline := fun he => hl (he ▸ List.mem_cons_self)
    rw [List.cons_append, lines, if_neg hc, ih fun hm => hl (List.mem_cons_of_mem c hm)]
    rfl

lemma matchstar_memory {c : UInt8} {re t : List UInt8} (r : List UInt8)
    (hre : ∀ t, 0 ∉ t → matchhere re (t ++ 0 :: r) = matchhere re t) (h0 : 0 ∉ t) :
    matchstar c re (t ++ 0 :: r) = matchstar c re t := by
  induction t with
  | nil =>
    have hnil := hre [] h0
    rw [List.nil_append] at hnil ⊢
    rw [matchstar_cons, matchstar_nil, hnil]
    simp
  | cons y t ih =>
    have hy := hre (y :: t) h0
    rw [List.cons_append] at hy ⊢
    rw [matchstar_cons, matchstar_cons, hy, ih fun hc => h0 (List.mem_cons_of_mem y hc)]

variable {t : List UInt8}

lemma matchhere_memory (r : List UInt8) (re : List UInt8) (h0 : 0 ∉ t) :
    matchhere re (t ++ 0 :: r) = matchhere re t := by
  -- every further call is on a shorter pattern
  induction hn : re.length using Nat.strong_induction_on generalizing re t with
  | _ n ih =>
    cases re with
    | nil => rw [matchhere_nil, matchhere_nil]
    | cons c re =>
      have hstar : matchstar c (re.drop 1) (t ++ 0 :: r) = matchstar c (re.drop 1) t := by
        refine matchstar_memory r (fun t ht => ih (re.drop 1).length ?_ _ ht rfl) h0
        rw [List.length_cons] at hn
        rw [List.length_drop]
        omega
      rw [matchhere_cons, matchhere_cons, hstar]
      cases t with
      | nil => rfl
      | cons y t =>
        have htail : matchhere re ((y :: t ++ 0 :: r).drop 1) = matchhere re ((y :: t).drop 1) :=
          ih re.length (hn ▸ Nat.lt_succ_self _) re (fun hc => h0 (List.mem_cons_of_mem y hc)) rfl
        rw [htail]
        rfl

lemma matchLoop_memory (r : List UInt8) (re : List UInt8) (h0 : 0 ∉ t) :
    matchLoop re (t ++ 0 :: r) = matchLoop re t := by
  induction t with
  | nil =>
    have hnil := matchhere_memory r re h0
    rw [List.nil_append] at hnil ⊢
    rw [matchLoop_cons, matchLoop_nil, hnil]
    simp
  | cons y t ih =>
    have hy := matchhere_memory r re h0
    rw [List.cons_append] at hy ⊢
    rw [matchLoop_cons, matchLoop_cons, hy, ih fun hc => h0 (List.mem_cons_of_mem y hc)]

lemma isMatch_memory (r re : List UInt8) (h0 : 0 ∉ t) :
    isMatch re (t ++ 0 :: r) = isMatch re t := by
  rw [isMatch, isMatch, matchhere_memory r _ h0, matchLoop_memory r _ h0]

lemma strchr_none {c : UInt8} (h0 : 0 ∉ t) (hc : c ∉ t) (r : List UInt8) :
    strchr (t ++ 0 :: r) c = none := by
  induction t with
  | nil => rw [List.nil_append, strchr, if_pos rfl]
  | cons x t ih =>
    have hx : x ≠ 0 := fun he => h0 (he ▸ List.mem_cons_self)
    have hxc : x ≠ c := fun he => hc (he ▸ List.mem_cons_self)
    rw [List.cons_append, strchr, if_neg hx, if_neg hxc,
      ih (fun hm => h0 (List.mem_cons_of_mem x hm)) fun hm => hc (List.mem_cons_of_mem x hm)]
    rfl

lemma strchr_some {c : UInt8} (h0 : 0 ∉ t) (hc : c ∉ t) (hc0 : c ≠ 0) (r : List UInt8) :
    strchr (t ++ c :: r) c = some t.length := by
  induction t with
  | nil => rw [List.nil_append, strchr, if_neg hc0, if_pos rfl, List.length_nil]
  | cons x t ih =>
    have hx : x ≠ 0 := fun he => h0 (he ▸ List.mem_cons_self)
    have hxc : x ≠ c := fun he => hc (he ▸ List.mem_cons_self)
    rw [List.cons_append, strchr, if_neg hx, if_neg hxc,
      ih (fun hm => h0 (List.mem_cons_of_mem x hm)) fun hm => hc (List.mem_cons_of_mem x hm)]
    rfl

lemma set_line {l s : List UInt8} {k : ℕ} (hk : k = l.length) (c d : UInt8) :
    (l ++ c :: s).set k d = l ++ d :: s := by
  rw [List.set_append_right _ _ hk.ge, hk, Nat.sub_self, List.set_cons_zero]

/-- What the loop over the lines has done: the lines `ls` are dealt with, and `r` is left of
the line in progress. -/
structure Scanned (pattern buf : List UInt8) (p : ℕ) (t rest : List UInt8)
    (res : List UInt8 × ℕ × List UInt8) (out : List UInt8) (ls : List (List UInt8))
    (r : List UInt8) : Prop where
  length : res.1.length = buf.length
  left : res.1.drop res.2.1 = r ++ 0 :: rest
  pos : res.2.1 + r.length = p + t.length
  out : res.2.2 = out ++ matching pattern ls
  noNewline : newline ∉ r
  noZero : 0 ∉ r
  lines : ∀ x, lines (t ++ x) = ls ++ lines (r ++ x)

variable {ls : List (List UInt8)}

lemma Scanned.line {buf b l t rest out out' r : List UInt8} {p : ℕ}
    {res : List UInt8 × ℕ × List UInt8}
    (h : Scanned pattern b (p + l.length + 1) t rest res out' ls r) (hl : newline ∉ l)
    (ho : out' = out ++ matching pattern [l ++ [newline]]) (hb : b.length = buf.length) :
    Scanned pattern buf p (l ++ newline :: t) rest res out ((l ++ [newline]) :: ls) r where
  length := h.length.trans hb
  left := h.left
  pos := by
    rw [h.pos, List.length_append, List.length_cons]
    omega
  out := by
    rw [h.out, ho, List.append_assoc, ← matching_append]
    rfl
  noNewline := h.noNewline
  noZero := h.noZero
  lines x := by
    rw [List.append_assoc, List.cons_append, lines_line hl, h.lines x]
    rfl

/-- The loop over the lines, on a buffer that holds `t` at position `p`. -/
lemma lineLoop_scanned (pattern : List UInt8) {buf t rest : List UInt8} (out : List UInt8) {p : ℕ}
    (hbuf : buf.drop p = t ++ 0 :: rest) (h0 : 0 ∉ t) :
    ∃ ls r, Scanned pattern buf p t rest (lineLoop pattern buf p out) out ls r := by
  induction hn : t.length using Nat.strong_induction_on generalizing buf p t out with
  | _ n ih =>
    by_cases hnl : newline ∈ t
    · obtain ⟨l, t', rfl, hl⟩ := List.eq_append_cons_of_mem hnl
      have hl0 : 0 ∉ l := fun hm => h0 (List.mem_append_left _ hm)
      have ht0 : 0 ∉ t' := fun hm => h0 (List.mem_append_right _ (List.mem_cons_of_mem _ hm))
      have hassoc : buf.drop p = l ++ newline :: (t' ++ 0 :: rest) := by
        rw [hbuf, List.append_assoc, List.cons_append]
      have hchr : strchr (buf.drop p) newline = some l.length := by
        rw [hassoc]
        exact strchr_some hl0 hl (by decide) _
      have hset : ∀ d, (buf.set (p + l.length) d).drop p = l ++ d :: (t' ++ 0 :: rest) := by
        intro d
        rw [List.drop_set, if_neg (by omega), Nat.add_sub_cancel_left, hassoc, set_line rfl]
      have hnext : ∀ d, (buf.set (p + l.length) d).drop (p + l.length + 1) = t' ++ 0 :: rest := by
        intro d
        have hdrop : (buf.set (p + l.length) d).drop (p + (l.length + 1)) =
            ((buf.set (p + l.length) d).drop p).drop (l.length + 1) := List.drop_drop.symm
        rw [Nat.add_assoc, hdrop, hset d, List.drop_length_add_append]
        rfl
      have hlen : t'.length < n := by
        rw [← hn, List.length_append, List.length_cons]
        omega
      rw [lineLoop]
      split
      · next hk =>
        rw [hchr] at hk
        cases hk
      · next k hk =>
        rw [hchr] at hk
        cases hk
        simp only []
        rw [hset 0, isMatch_memory _ _ hl0]
        split
        · next hm =>
          have htake : ((buf.set (p + l.length) newline).drop p).take (p + l.length + 1 - p) =
              l ++ [newline] := by
            rw [hset newline, Nat.add_assoc, Nat.add_sub_cancel_left, List.take_length_add_append]
            rfl
          obtain ⟨ls, r, hs⟩ := ih t'.length hlen (out ++ (l ++ [newline])) (hnext newline) ht0 rfl
          refine ⟨(l ++ [newline]) :: ls, r, ?_⟩
          rw [List.set_set, htake]
          exact hs.line hl (by rw [matching_single hl, if_pos hm]) (List.length_set ..)
        · next hm =>
          obtain ⟨ls, r, hs⟩ := ih t'.length hlen out (hnext 0) ht0 rfl
          refine ⟨(l ++ [newline]) :: ls, r, hs.line hl ?_ (List.length_set ..)⟩
          rw [matching_single hl, if_neg hm, List.append_nil]
    · refine ⟨[], t, ?_⟩
      have hres : lineLoop pattern buf p out = (buf, p, out) := by
        rw [lineLoop]
        split
        · rfl
        · next k hk =>
          rw [hbuf, strchr_none h0 hnl] at hk
          cases hk
      rw [hres]
      exact ⟨rfl, hbuf, rfl, (List.append_nil out).symm, hnl, h0, fun _ => rfl⟩

lemma length_store {buf bytes : List UInt8} {m : ℕ} (h : m + bytes.length ≤ buf.length) :
    (store buf m bytes).length = buf.length := by
  rw [store, List.length_append, List.length_append, List.length_take, List.length_drop]
  omega

/-- After the shift the buffer begins with the line in progress. -/
lemma Scanned.shift {b t rest out r : List UInt8} {res : List UInt8 × ℕ × List UInt8} {k : ℕ}
    (h : Scanned pattern b 0 t rest res out ls r) (hk : k = t.length) (hpos : 0 < k)
    (hb : t.length ≤ b.length) : (shift res.1 res.2.1 k).1.length = b.length ∧
      (shift res.1 res.2.1 k).1.take r.length = r ∧ (shift res.1 res.2.1 k).2 = r.length := by
  have hp := h.pos
  have hlen : k - res.2.1 = r.length := by omega
  have htake : (res.1.drop res.2.1).take r.length = r := by
    rw [h.left, List.take_left]
  rw [Grep.shift, if_pos hpos, hlen, htake]
  refine ⟨?_, ?_, rfl⟩
  · rw [length_store, h.length]
    rw [h.length]
    omega
  · rw [store, List.take_zero, List.nil_append, List.take_left]

/-- The buffer holds the beginning `r` of a line. -/
structure Holding (buf : List UInt8) (m : ℕ) (r : List UInt8) : Prop where
  length : buf.length = BUF
  take : buf.take m = r
  count : m = r.length

/-- One `read` of `n` bytes with the lines that it completes. -/
lemma Holding.read {buf r inp : List UInt8} {m n : ℕ} (h : Holding buf m r) (h0 : 0 ∉ r ++ inp)
    (hn : m + n < BUF) (hn' : n ≤ inp.length) (hpos : 0 < n) (pattern out : List UInt8) :
    ∃ res ls r', lineLoop pattern ((store buf m (inp.take n)).set (m + n) 0) 0 out = res ∧
      res.2.2 = out ++ matching pattern ls ∧ newline ∉ r' ∧
      Holding (shift res.1 res.2.1 (m + n)).1 (shift res.1 res.2.1 (m + n)).2 r' ∧
      lines (r ++ inp.take n ++ [newline]) = ls ++ [r' ++ [newline]] ∧
      lines (r ++ inp) = ls ++ lines (r' ++ inp.drop n) := by
  have htake : (inp.take n).length = n := List.length_take_of_le hn'
  have hsplit : r ++ inp = r ++ inp.take n ++ inp.drop n := by
    rw [List.append_assoc, List.take_append_drop]
  have hmn : m + n = (r ++ inp.take n).length := by rw [List.length_append, htake, h.count]
  have hlt : m + n < buf.length := h.length ▸ hn
  have hbl : ((store buf m (inp.take n)).set (m + n) 0).length = BUF := by
    rw [List.length_set, length_store (by omega), h.length]
  have hdrop : ((store buf m (inp.take n)).set (m + n) 0).drop 0 =
      r ++ inp.take n ++ 0 :: buf.drop (m + n + 1) := by
    rw [List.drop_zero, store, htake, h.take, List.drop_eq_getElem_cons hlt, set_line hmn]
  have h0t : 0 ∉ r ++ inp.take n := by
    rw [hsplit] at h0
    exact fun hc => h0 (List.mem_append_left _ hc)
  obtain ⟨ls, r', hs⟩ := lineLoop_scanned pattern out hdrop h0t
  obtain ⟨hb1, hb2, hb3⟩ := hs.shift hmn (by omega) (by omega)
  refine ⟨_, ls, r', rfl, hs.out, hs.noNewline, ⟨hb1.trans hbl, hb3 ▸ hb2, hb3⟩, ?_, ?_⟩
  · rw [hs.lines, lines_line hs.noNewline]
    rfl
  · rw [hsplit, hs.lines]

end Xv6.Grep
