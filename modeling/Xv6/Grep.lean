import Mathlib.Tactic

/-!
# `grep`

The program of `user/grep.c`. A pointer to a string is the list of the bytes from there on,
which reads as 0 beyond its end. The buffer is a list of its 1024 bytes with positions for
`p` and `q`, and the input comes in pieces: `chunk i` is what is there for the `i`-th `read`.
-/
namespace Xv6.Grep

/-- `s[i]`. -/
def charAt (s : List UInt8) (i : ℕ) : UInt8 := s.getD i 0

lemma ne_nil_of_charAt {s : List UInt8} (h : ¬ charAt s 0 = 0) : 0 < s.length := by
  cases s with
  | nil => exact absurd rfl h
  | cons c s => exact Nat.succ_pos _

mutual

/-- Search for `re` at the beginning of `text`. -/
def matchhere (re text : List UInt8) : Bool :=
  if charAt re 0 = 0 then
    true
  else if charAt re 1 = '*'.toUInt8 then
    matchstar (charAt re 0) (re.drop 2) text
  else if charAt re 0 = '$'.toUInt8 ∧ charAt re 1 = 0 then
    charAt text 0 = 0
  else if charAt text 0 ≠ 0 ∧ (charAt re 0 = '.'.toUInt8 ∨ charAt re 0 = charAt text 0) then
    matchhere (re.drop 1) (text.drop 1)
  else
    false
termination_by (re.length, text.length, 0)
decreasing_by
  all_goals
    have := ne_nil_of_charAt ‹_›
    apply Prod.Lex.left
    rw [List.length_drop]
    omega

/-- Search for `c*re` at the beginning of `text`. -/
def matchstar (c : UInt8) (re text : List UInt8) : Bool :=
  if matchhere re text then
    true
  else if charAt text 0 ≠ 0 ∧ (charAt text 0 = c ∨ c = '.'.toUInt8) then
    matchstar c re (text.drop 1)
  else
    false
termination_by (re.length, text.length, 1)
decreasing_by
  · apply Prod.Lex.right
    apply Prod.Lex.right
    exact Nat.zero_lt_one
  · rename_i h
    have := ne_nil_of_charAt h.1
    apply Prod.Lex.right
    apply Prod.Lex.left
    rw [List.length_drop]
    omega

end

/-- The loop of `match`, over the positions of the text. -/
def matchLoop (re text : List UInt8) : Bool :=
  if matchhere re text then
    true
  else if charAt text 0 ≠ 0 then
    matchLoop re (text.drop 1)
  else
    false
termination_by text.length
decreasing_by
  have := ne_nil_of_charAt ‹_›
  rw [List.length_drop]
  omega

/-- `match`. -/
def isMatch (re text : List UInt8) : Bool :=
  if charAt re 0 = '^'.toUInt8 then matchhere (re.drop 1) text else matchLoop re text

section

variable {c : UInt8} {re text : List UInt8}

lemma charAt_nil : charAt [] 0 = 0 := rfl

lemma charAt_cons : charAt (c :: re) 0 = c := rfl

lemma matchhere_cons : matchhere (c :: re) text =
    if c = 0 then true
    else if charAt re 0 = '*'.toUInt8 then matchstar c (re.drop 1) text
    else if c = '$'.toUInt8 ∧ charAt re 0 = 0 then decide (charAt text 0 = 0)
    else if charAt text 0 ≠ 0 ∧ (c = '.'.toUInt8 ∨ c = charAt text 0) then
      matchhere re (text.drop 1)
    else false := by
  rw [matchhere]
  rfl

lemma matchstar_cons {y : UInt8} : matchstar c re (y :: text) =
    if matchhere re (y :: text) then true
    else if y ≠ 0 ∧ (y = c ∨ c = '.'.toUInt8) then matchstar c re text
    else false := by
  rw [matchstar]
  rfl

lemma matchLoop_cons {y : UInt8} : matchLoop re (y :: text) =
    if matchhere re (y :: text) then true
    else if y ≠ 0 then matchLoop re text
    else false := by
  rw [matchLoop]
  rfl

lemma matchhere_nil : matchhere [] text = true := by rw [matchhere, if_pos charAt_nil]

lemma matchstar_nil : matchstar c re [] = matchhere re [] := by
  rw [matchstar]
  simp [charAt_nil]

lemma matchLoop_nil : matchLoop re [] = matchhere re [] := by
  rw [matchLoop]
  simp [charAt_nil]

end

/-- `strchr(s, c)`, as an offset from `s`. -/
def strchr : List UInt8 → UInt8 → Option ℕ
  | [], _ => none
  | x :: s, c => if x = 0 then none else if x = c then some 0 else (strchr s c).map (· + 1)

lemma strchr_lt {s : List UInt8} {c : UInt8} {k : ℕ} (h : strchr s c = some k) : k < s.length := by
  induction s generalizing k with
  | nil => cases h
  | cons x s ih =>
    rw [strchr] at h
    split at h
    · cases h
    · split at h
      · cases h
        exact Nat.succ_pos _
      · obtain ⟨j, hj, rfl⟩ := Option.map_eq_some_iff.mp h
        exact Nat.succ_lt_succ (ih hj)

abbrev newline : UInt8 := 10

/-- The size of `buf`. -/
abbrev BUF : ℕ := 1024

/-- The loop over the lines in the buffer: the buffer, `p` and the output at its end. -/
def lineLoop (pattern buf : List UInt8) (p : ℕ) (out : List UInt8) :
    List UInt8 × ℕ × List UInt8 :=
  match h : strchr (buf.drop p) newline with
  | none => (buf, p, out)
  | some k =>
    let q := p + k
    let buf := buf.set q 0
    if isMatch pattern (buf.drop p) then
      let buf := buf.set q newline
      lineLoop pattern buf (q + 1) (out ++ (buf.drop p).take (q + 1 - p))
    else
      lineLoop pattern buf (q + 1) out
termination_by buf.length - p
decreasing_by
  all_goals
    have := strchr_lt h
    simp only [List.length_drop, List.length_set] at *
    omega

/-- Bytes stored at position `m` of the buffer. -/
def store (buf : List UInt8) (m : ℕ) (bytes : List UInt8) : List UInt8 :=
  buf.take m ++ bytes ++ buf.drop (m + bytes.length)

/-- `m -= p - buf; memmove(buf, p, m)`, if there is anything in the buffer. -/
def shift (buf : List UInt8) (p m : ℕ) : List UInt8 × ℕ :=
  if 0 < m then (store buf 0 ((buf.drop p).take (m - p)), m - p) else (buf, m)

end Xv6.Grep
