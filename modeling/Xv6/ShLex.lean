import Xv6.ShGrammar
import Mathlib.Data.Bool.AllAny

/-!
# What the parser sees of a string

At every position the string has the tokens of what is left of it. `peek` looks at the first
of them, and `gettoken` takes it.
-/
namespace Xv6.Sh

open Prog

variable {buf : List UInt8} {s : ℕ}

/-- The tokens from position `s` on. -/
def toksAt (buf : List UInt8) (s : ℕ) : List Token := tokens (buf.drop s)

lemma charAt_of_lt (h : s < buf.length) : charAt buf s = buf[s] := by
  rw [charAt, List.getD_eq_getElem?_getD, List.getElem?_eq_getElem h, Option.getD_some]

lemma charAt_of_le (h : buf.length ≤ s) : charAt buf s = 0 := by
  rw [charAt, List.getD_eq_getElem?_getD, List.getElem?_eq_none h, Option.getD_none]

lemma charAt_ne_zero (hnul : 0 ∉ buf) (h : s < buf.length) : charAt buf s ≠ 0 := by
  rw [charAt_of_lt h]
  intro h0
  exact hnul (h0 ▸ List.getElem_mem h)

lemma drop_eq_cons (h : s < buf.length) : buf.drop s = charAt buf s :: buf.drop (s + 1) := by
  rw [charAt_of_lt h]
  exact List.drop_eq_getElem_cons h

lemma toksAt_of_le (h : buf.length ≤ s) : toksAt buf s = [] := by
  rw [toksAt, List.drop_of_length_le h]
  rfl

lemma tokens_one (c : UInt8) : tokens [c] =
    if c ∈ whitespace then [] else if c ∈ symbols then [symbol c] else [.word [c]] := by
  rw [tokens]

lemma tokens_whitespace {c : UInt8} (l : List UInt8) (h : c ∈ whitespace) :
    tokens (c :: l) = tokens l := by
  cases l with
  | nil => rw [tokens_one, if_pos h, tokens]
  | cons d l => rw [tokens, if_pos h]

lemma tokens_append (l : List UInt8) :
    tokens ('>'.toUInt8 :: '>'.toUInt8 :: l) = .op .append :: tokens l := by
  rw [tokens, if_neg (by decide), if_pos ⟨rfl, rfl⟩]

lemma not_whitespace_of_symbol {c : UInt8} (h : c ∈ symbols) : c ∉ whitespace := by
  intro hblank
  have hnone : ∀ c ∈ symbols, c ∉ whitespace := List.all_iff_forall_prop.mp (by decide)
  exact hnone c h hblank

lemma tokens_symbol {c : UInt8} {l : List UInt8} (h : c ∈ symbols)
    (hne : ¬ (c = '>'.toUInt8 ∧ l.head? = some '>'.toUInt8)) :
    tokens (c :: l) = symbol c :: tokens l := by
  have hblank := not_whitespace_of_symbol h
  cases l with
  | nil => rw [tokens_one, if_neg hblank, if_pos h, tokens]
  | cons d l =>
    have hne' : ¬ (c = '>'.toUInt8 ∧ d = '>'.toUInt8) := by
      intro hgt
      exact hne ⟨hgt.1, congrArg some hgt.2⟩
    rw [tokens, if_neg hblank, if_neg hne', if_pos h]

lemma tokens_wordChar {c : UInt8} (d : UInt8) (l : List UInt8) (h : WordChar c) :
    tokens (c :: d :: l) = joinWord c d (tokens (d :: l)) := by
  have hgt : ¬ (c = '>'.toUInt8 ∧ d = '>'.toUInt8) := by
    intro hc
    exact h.2 (hc.1 ▸ by decide)
  rw [tokens, if_neg h.1, if_neg hgt, if_neg h.2]

/-- A word is as long as it can be. -/
lemma tokens_word {w r : List UInt8} (hne : w ≠ []) (hw : ∀ c ∈ w, WordChar c)
    (hr : ∀ c, r.head? = some c → ¬ WordChar c) : tokens (w ++ r) = .word w :: tokens r := by
  induction w with
  | nil => exact absurd rfl hne
  | cons c w ih =>
    obtain ⟨hc, hw⟩ := List.forall_mem_cons.mp hw
    cases w with
    | nil =>
      cases r with
      | nil => rw [List.append_nil, tokens_one, if_neg hc.1, if_neg hc.2, tokens]
      | cons d r =>
        rw [List.singleton_append, tokens_wordChar d r hc]
        unfold joinWord
        split
        · rw [if_neg (hr d rfl)]
        · rfl
    | cons d w =>
      rw [List.cons_append, List.cons_append, tokens_wordChar d _ hc, ← List.cons_append,
        ih (List.cons_ne_nil _ _) hw, joinWord, if_pos (hw d List.mem_cons_self)]

/-- Skipping blanks changes nothing for the tokens. -/
lemma skipWhitespace_spec (k : ℕ) (hk : buf.length ≤ s + k) (hs : s ≤ buf.length) :
    s ≤ skipWhitespace buf k s ∧ skipWhitespace buf k s ≤ buf.length ∧
      toksAt buf (skipWhitespace buf k s) = toksAt buf s ∧
      charAt buf (skipWhitespace buf k s) ∉ whitespace := by
  induction k generalizing s with
  | zero =>
    refine ⟨le_rfl, hs, rfl, ?_⟩
    rw [skipWhitespace, charAt_of_le (by omega)]
    decide
  | succ k ih =>
    rw [skipWhitespace]
    by_cases hc : charAt buf s ∈ whitespace
    · rw [if_pos hc]
      have hlt : s < buf.length := by
        by_contra hge
        rw [charAt_of_le (by omega)] at hc
        exact absurd hc (by decide)
      obtain ⟨h1, h2, h3, h4⟩ := ih (s := s + 1) (by omega) (by omega)
      refine ⟨by omega, h2, ?_, h4⟩
      rw [h3, toksAt, toksAt, drop_eq_cons hlt, tokens_whitespace _ hc]
    · rw [if_neg hc]
      exact ⟨le_rfl, hs, rfl, hc⟩

/-- Where a word of the string is. -/
structure WordSpan (buf : List UInt8) (w : Span) : Prop where
  lt : w.1 < w.2
  le : w.2 ≤ buf.length
  chars : ∀ i, w.1 ≤ i → i < w.2 → WordChar (charAt buf i)
  stop : w.2 < buf.length → ¬ WordChar (charAt buf w.2)

def text (buf : List UInt8) (w : Span) : List UInt8 := (buf.drop w.1).take (w.2 - w.1)

lemma skipWord_spec (k : ℕ) (hk : buf.length = s + k) :
    s ≤ skipWord buf k s ∧ skipWord buf k s ≤ buf.length ∧
      (∀ i, s ≤ i → i < skipWord buf k s → WordChar (charAt buf i)) ∧
      (skipWord buf k s < buf.length → ¬ WordChar (charAt buf (skipWord buf k s))) := by
  induction k generalizing s with
  | zero =>
    rw [skipWord]
    exact ⟨le_rfl, by omega, fun i h1 h2 => absurd h1 (by omega), fun h => absurd h (by omega)⟩
  | succ k ih =>
    rw [skipWord]
    by_cases hc : charAt buf s ∉ whitespace ∧ charAt buf s ∉ symbols
    · rw [if_pos hc]
      obtain ⟨h1, h2, h3, h4⟩ := ih (s := s + 1) (by omega)
      refine ⟨by omega, h2, ?_, h4⟩
      intro i hi hlt
      rcases Nat.eq_or_lt_of_le hi with rfl | hi
      · exact hc
      · exact h3 i hi hlt
    · rw [if_neg hc]
      exact ⟨le_rfl, by omega, fun i h1 h2 => absurd h1 (by omega), fun _ => hc⟩

/-- The tokens from the beginning of a word on. -/
lemma toksAt_word {w : Span} (h : WordSpan buf w) :
    toksAt buf w.1 = .word (text buf w) :: toksAt buf w.2 := by
  have hlt := h.lt
  have hle := h.le
  have hsplit : buf.drop w.1 = text buf w ++ buf.drop w.2 := by
    rw [text, show w.2 = w.1 + (w.2 - w.1) by omega, ← List.drop_drop, Nat.add_sub_cancel_left]
    exact (List.take_append_drop _ _).symm
  have hlen : (text buf w).length = w.2 - w.1 := by
    rw [text, List.length_take, List.length_drop]
    omega
  rw [toksAt, hsplit, tokens_word, toksAt]
  · intro h0
    rw [h0, List.length_nil] at hlen
    omega
  · intro c hc
    obtain ⟨i, hi, rfl⟩ := List.getElem_of_mem hc
    have hchar := h.chars (w.1 + i) (by omega) (by omega)
    rw [charAt_of_lt (by omega)] at hchar
    simpa [text] using hchar
  · intro c hc
    by_cases hend : w.2 < buf.length
    · rw [drop_eq_cons hend, List.head?_cons] at hc
      cases hc
      exact h.stop hend
    · rw [List.drop_of_length_le (by omega)] at hc
      cases hc

namespace Token

/-- What `gettoken` returns for a token. -/
def code : Token → UInt8
  | .word _ => 'a'.toUInt8
  | .pipe => '|'.toUInt8
  | .lparen => '('.toUInt8
  | .rparen => ')'.toUInt8
  | .semi => ';'.toUInt8
  | .amp => '&'.toUInt8
  | .op .input => '<'.toUInt8
  | .op .output => '>'.toUInt8
  | .op .append => '+'.toUInt8

/-- The character that a token of symbols begins with; none for a word. -/
def lead : Token → Option Char
  | .word _ => none
  | .pipe => '|'
  | .lparen => '('
  | .rparen => ')'
  | .semi => ';'
  | .amp => '&'
  | .op .input => '<'
  | .op .output => '>'
  | .op .append => '>'

end Token

/-- Does the first token begin with one of these characters? -/
def leads (cs : List Char) : List Token → Bool
  | [] => false
  | t :: _ => t.lead.any (· ∈ cs)

/-- The symbols as characters. -/
def symbolChars : List Char := ['<', '|', '>', '&', ';', '(', ')']

/-- What `gettoken` and `peek` find at a position that is not blank: the token `t`, which
ends at `e`. -/
structure Scanned (buf : List UInt8) (s : ℕ) (t : Token) (e : ℕ) : Prop where
  toks : toksAt buf s = t :: toksAt buf e
  lt : s < e
  le : e ≤ buf.length
  ret : scanToken buf s = (t.code, e)
  word : ∀ w, t = .word w → WordSpan buf (s, e) ∧ w = text buf (s, e)
  lead : ∀ cs ⊆ symbolChars,
    t.lead.any (· ∈ cs) = decide (charAt buf s ∈ cs.map Char.toUInt8)

lemma mem_map_toUInt8 {c : Char} (hc : c ∈ symbolChars) {cs : List Char} (hcs : cs ⊆ symbolChars) :
    c.toUInt8 ∈ cs.map Char.toUInt8 ↔ c ∈ cs := by
  have hnodup : (symbolChars.map Char.toUInt8).Nodup := by decide
  constructor
  · intro h
    obtain ⟨d, hd, heq⟩ := List.mem_map.mp h
    rw [List.inj_on_of_nodup_map hnodup hc (hcs hd) heq.symm]
    exact hd
  · intro h
    exact List.mem_map_of_mem h

lemma scanned_symbol {t : Token} {e : ℕ} {c : Char} (htoks : toksAt buf s = t :: toksAt buf e)
    (hlt : s < e) (hle : e ≤ buf.length) (hret : scanToken buf s = (t.code, e))
    (hc : c ∈ symbolChars) (hchar : charAt buf s = c.toUInt8) (hlead : t.lead = some c) :
    Scanned buf s t e where
  toks := htoks
  lt := hlt
  le := hle
  ret := hret
  word w hw := by
    rw [hw] at hlead
    cases hlead
  lead cs hcs := by
    rw [hlead, hchar, Option.any_some]
    exact decide_eq_decide.mpr (mem_map_toUInt8 hc hcs).symm

lemma scanned_word (hlt : s < buf.length) (hzero : charAt buf s ≠ 0) (hword : WordChar (charAt buf s)) :
    ∃ t e, Scanned buf s t e := by
  obtain ⟨k, hk⟩ : ∃ k, buf.length - s = k + 1 := ⟨buf.length - s - 1, by omega⟩
  have hstep : skipWord buf (buf.length - s) s = skipWord buf k (s + 1) := by
    rw [hk, skipWord]
    exact if_pos hword
  have hlen : buf.length = s + 1 + k := by omega
  obtain ⟨h1, h2, h3, h4⟩ := skipWord_spec k hlen
  rw [← hstep] at h1 h2 h3 h4
  have hspan : WordSpan buf (s, skipWord buf (buf.length - s) s) := by
    refine ⟨by dsimp only; omega, h2, ?_, h4⟩
    intro i hi hlt
    rcases Nat.eq_or_lt_of_le hi with rfl | hi
    · exact hword
    · exact h3 i hi hlt
  refine ⟨_, _, toksAt_word hspan, hspan.lt, h2, ?_, ?_, ?_⟩
  · have hsimple : charAt buf s ∉ ['|', '(', ')', ';', '&', '<'].map Char.toUInt8 := by
      intro hmem
      have hsub : ['|', '(', ')', ';', '&', '<'].map Char.toUInt8 ⊆ symbols := by decide
      exact hword.2 (hsub hmem)
    have hgt : charAt buf s ≠ '>'.toUInt8 := by
      intro hgt
      exact hword.2 (hgt ▸ by decide)
    unfold scanToken
    dsimp only
    rw [if_neg hzero, if_neg hsimple, if_neg hgt]
    rfl
  · intro w hw
    cases hw
    exact ⟨hspan, rfl⟩
  · intro cs hcs
    have hnot : charAt buf s ∉ cs.map Char.toUInt8 := by
      intro hmem
      obtain ⟨d, hd, heq⟩ := List.mem_map.mp hmem
      have hsub : ∀ d ∈ symbolChars, d.toUInt8 ∈ symbols :=
        List.all_iff_forall_prop.mp (by decide)
      exact hword.2 (heq ▸ hsub d (hcs hd))
    rw [decide_eq_false hnot]
    rfl

/-- There is a token at every position that is not blank. -/
theorem exists_scanned (hnul : 0 ∉ buf) (hlt : s < buf.length)
    (hblank : charAt buf s ∉ whitespace) : ∃ t e, Scanned buf s t e := by
  have hzero := charAt_ne_zero hnul hlt
  have hcons : toksAt buf s = tokens (charAt buf s :: buf.drop (s + 1)) := by
    rw [toksAt, drop_eq_cons hlt]
  by_cases hsimple : charAt buf s ∈ ['|', '(', ')', ';', '&', '<'].map Char.toUInt8
  · obtain ⟨c, hc, hchar⟩ := List.mem_map.mp hsimple
    have hfacts : ∀ c ∈ ['|', '(', ')', ';', '&', '<'], c ∈ symbolChars ∧ c.toUInt8 ∈ symbols ∧
        c.toUInt8 ≠ '>'.toUInt8 ∧ (symbol c.toUInt8).code = c.toUInt8 ∧
        (symbol c.toUInt8).lead = some c := List.all_iff_forall_prop.mp (by decide)
    obtain ⟨hmem, hsym, hgt, hcode, hlead⟩ := hfacts c hc
    refine ⟨symbol c.toUInt8, s + 1, scanned_symbol ?_ (by omega) (by omega) ?_ hmem hchar.symm hlead⟩
    · rw [hcons, ← hchar, tokens_symbol hsym (fun h => hgt h.1)]
      rfl
    · unfold scanToken
      dsimp only
      rw [if_neg hzero, if_pos hsimple, hcode, hchar]
  by_cases hgt : charAt buf s = '>'.toUInt8
  · have hret : scanToken buf s =
        if charAt buf (s + 1) = '>'.toUInt8 then ('+'.toUInt8, s + 2) else ('>'.toUInt8, s + 1) := by
      unfold scanToken
      dsimp only
      rw [if_neg hzero, if_neg hsimple, if_pos hgt, hgt]
    by_cases hnext : charAt buf (s + 1) = '>'.toUInt8
    · have hlt' : s + 1 < buf.length := by
        by_contra hge
        rw [charAt_of_le (by omega)] at hnext
        exact absurd hnext (by decide)
      rw [if_pos hnext] at hret
      refine ⟨.op .append, s + 2, scanned_symbol ?_ (by omega) (by omega) hret (by decide) hgt rfl⟩
      rw [hcons, hgt, drop_eq_cons hlt', hnext, tokens_append]
      rfl
    · rw [if_neg hnext] at hret
      refine ⟨.op .output, s + 1, scanned_symbol ?_ (by omega) (by omega) hret (by decide) hgt rfl⟩
      have hhead : (buf.drop (s + 1)).head? ≠ some '>'.toUInt8 := by
        intro hh
        by_cases hlt' : s + 1 < buf.length
        · rw [drop_eq_cons hlt', List.head?_cons] at hh
          exact hnext (Option.some.inj hh)
        · rw [List.drop_of_length_le (by omega)] at hh
          cases hh
      rw [hcons, hgt, tokens_symbol (by decide) (fun h => hhead h.2)]
      rfl
  · have hsub : ∀ c ∈ symbols, c ∈ ['|', '(', ')', ';', '&', '<'].map Char.toUInt8 ∨
        c = '>'.toUInt8 := List.all_iff_forall_prop.mp (by decide)
    have hword : WordChar (charAt buf s) := by
      refine ⟨hblank, ?_⟩
      intro hmem
      exact (hsub _ hmem).elim hsimple hgt
    exact scanned_word hlt hzero hword

section Programs

variable (hnul : 0 ∉ buf) (hs : s ≤ buf.length) {E : Err → Prop}
include hnul hs

lemma wp_peek {cs : List Char} (hcs : cs ⊆ symbolChars) {Q : Bool → ℕ → Prop}
    (hQ : ∀ s', s ≤ s' → s' ≤ buf.length → toksAt buf s' = toksAt buf s →
      (s' = buf.length ↔ toksAt buf s = []) → Q (leads cs (toksAt buf s)) s') :
    wp (peek buf cs) s Q E := by
  obtain ⟨h1, h2, h3, h4⟩ := skipWhitespace_spec (buf.length - s) (by omega) hs
  rw [peek, wp_bind, wp_get, wp_bind, wp_set, wp_pure]
  obtain ⟨s', hs'⟩ : ∃ s', skipWhitespace buf (buf.length - s) s = s' := ⟨_, rfl⟩
  rw [hs'] at h1 h2 h3 h4 ⊢
  rcases h2.lt_or_eq with hlt | hend
  · obtain ⟨t, e, ht⟩ := exists_scanned hnul hlt h4
    have hres : decide (charAt buf s' ≠ 0 ∧ charAt buf s' ∈ cs.map Char.toUInt8) =
        leads cs (toksAt buf s) := by
      rw [← h3, ht.toks, leads, ht.lead cs hcs]
      apply decide_eq_decide.mpr
      exact and_iff_right (charAt_ne_zero hnul hlt)
    rw [hres]
    apply hQ s' h1 h2 h3
    rw [← h3, ht.toks]
    exact ⟨fun h => absurd h (by omega), fun h => absurd h (List.cons_ne_nil _ _)⟩
  · have hnil : toksAt buf s = [] := by
      rw [← h3]
      exact toksAt_of_le (by omega)
    have hres : decide (charAt buf s' ≠ 0 ∧ charAt buf s' ∈ cs.map Char.toUInt8) =
        leads cs (toksAt buf s) := by
      rw [hnil, leads, charAt_of_le (by omega)]
      exact decide_eq_false fun h => h.1 rfl
    rw [hres]
    exact hQ s' h1 h2 h3 ⟨fun _ => hnil, fun _ => hend⟩

lemma wp_gettoken {Q : Tok → ℕ → Prop}
    (hnil : toksAt buf s = [] → ∀ tok s', tok.ret = 0 → s ≤ s' → s' ≤ buf.length →
      toksAt buf s' = [] → Q tok s')
    (hcons : ∀ t rest, toksAt buf s = t :: rest → ∀ tok s', s < s' → s' ≤ buf.length →
      toksAt buf s' = rest → tok.ret = t.code →
      (∀ w, t = .word w → WordSpan buf (tok.q, tok.eq) ∧ text buf (tok.q, tok.eq) = w) → Q tok s') :
    wp (gettoken buf) s Q E := by
  obtain ⟨h1, h2, h3, h4⟩ := skipWhitespace_spec (buf.length - s) (by omega) hs
  rw [gettoken, wp_bind, wp_get]
  dsimp only
  rw [wp_bind, wp_set, wp_pure]
  obtain ⟨q, hq⟩ : ∃ q, skipWhitespace buf (buf.length - s) s = q := ⟨_, rfl⟩
  rw [hq] at h1 h2 h3 h4 ⊢
  rcases h2.lt_or_eq with hlt | hend
  · obtain ⟨t, e, ht⟩ := exists_scanned hnul hlt h4
    obtain ⟨h5, h6, h7, -⟩ := skipWhitespace_spec (buf.length - e) (by omega) ht.le
    have hlt' := ht.lt
    rw [ht.ret]
    dsimp only
    apply hcons t (toksAt buf e) (h3 ▸ ht.toks) _ _ (by omega) h6 h7 rfl
    intro w hw
    exact ⟨(ht.word w hw).1, (ht.word w hw).2.symm⟩
  · have htoks : toksAt buf s = [] := by
      rw [← h3]
      exact toksAt_of_le (by omega)
    have hscan : scanToken buf q = (0, q) := by
      unfold scanToken
      rw [charAt_of_le (by omega)]
      rfl
    rw [hscan]
    dsimp only
    obtain ⟨h5, h6, h7, -⟩ := skipWhitespace_spec (buf.length - q) (by omega) h2
    apply hnil htoks _ _ rfl (by omega) h6
    rw [h7, h3, htoks]

lemma wp_gettoken_cons {Q : Tok → ℕ → Prop} {t : Token} {rest : List Token}
    (htoks : toksAt buf s = t :: rest)
    (hQ : ∀ tok s', s < s' → s' ≤ buf.length → toksAt buf s' = rest → tok.ret = t.code →
      (∀ w, t = .word w → WordSpan buf (tok.q, tok.eq) ∧ text buf (tok.q, tok.eq) = w) → Q tok s') :
    wp (gettoken buf) s Q E := by
  apply wp_gettoken hnul hs
  · intro hnil
    rw [htoks] at hnil
    cases hnil
  · intro t' rest' ht
    rw [htoks] at ht
    obtain ⟨rfl, rfl⟩ := List.cons.inj ht
    exact hQ

end Programs

end Xv6.Sh
