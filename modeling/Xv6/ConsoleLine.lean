import Xv6.Console

/-!
# The line discipline

The reference model has a queue of committed bytes and a line that is edited, of joint
capacity `INPUT_BUF_SIZE`. The ring of the console is this model: the queue lies between
`r` and `w` and the line between `w` and `e`, whether or not the indices wrap.
-/
namespace Xv6.Console

open Function WrapRing

/-- The committed bytes and the line that is edited. -/
structure Input where
  committed : List UInt8
  line : List UInt8
  deriving DecidableEq, Repr

def Input.type (t : Input) (c : UInt8) : Input :=
  if c = 0 ∨ c = ctrl 'P' then
    t
  else if c = ctrl 'U' then
    { t with line := [] }
  else if c = ctrl 'H' ∨ c = delete then
    { t with line := t.line.dropLast }
  else if t.committed.length + t.line.length < INPUT_BUF_SIZE then
    let c := if c = carriageReturn then newline else c
    let line := t.line ++ [c]
    if c = newline ∨ c = ctrl 'D' ∨ t.committed.length + line.length = INPUT_BUF_SIZE then
      ⟨t.committed ++ line, []⟩
    else
      { t with line := line }
  else
    t

/-- A byte that does not end a read. -/
def plain (c : UInt8) : Bool := c ≠ newline ∧ c ≠ ctrl 'D'

/-- What a read of up to `n` bytes takes from the committed ones, what it leaves, and if
it is at an end: it takes bytes up to a newline, and that too, or up to a `^D`, which it
removes if it is the first byte of the read. -/
def chunk (first : Bool) (n : ℕ) (q : List UInt8) : List UInt8 × List UInt8 × Bool :=
  let taken := (q.take n).takeWhile plain
  if taken.length = n then
    (taken, q.drop n, true)
  else
    match q.drop taken.length with
    | [] => (taken, [], false)
    | c :: rest =>
      if c = newline then
        (taken ++ [c], rest, true)
      else
        (taken, if first ∧ taken = [] then rest else c :: rest, true)

/-- The reference model and its readers: how many bytes each still wants, and those it has. -/
structure Ref (P : Type*) where
  input : Input
  reader : P → Option (ℕ × List UInt8)
  returns : List (P × ℤ × List UInt8)

section

variable {P : Type*} [DecidableEq P]

/-- A reader takes what is committed; it waits for more unless its read is at an end. -/
def Ref.turn (t : Ref P) (p : P) (killed : Bool) (n : ℕ) (got : List UInt8) : Ref P :=
  let (taken, rest, ended) := chunk (got = []) n t.input.committed
  let input := { t.input with committed := rest }
  if ended then
    ⟨input, update t.reader p none, t.returns ++ [(p, ((got ++ taken).length : ℤ), got ++ taken)]⟩
  else if killed then
    ⟨input, update t.reader p none, t.returns ++ [(p, -1, got ++ taken)]⟩
  else
    ⟨input, update t.reader p (some (n - taken.length, got ++ taken)), t.returns⟩

def Ref.step (t : Ref P) : Event P → Option (Ref P)
  | .intr c => some { t with input := t.input.type c }
  | .read p n _ killed => if (t.reader p).isNone then some (t.turn p killed n.toNat []) else none
  | .resume p killed => (t.reader p).map fun x => t.turn p killed x.1 x.2

def Ref.init : Ref P := ⟨⟨[], []⟩, fun _ => none, []⟩

end

def Cons.input (s : Cons) : Input :=
  ⟨contents INPUT_BUF_SIZE s.buf s.r s.w, contents INPUT_BUF_SIZE s.buf s.w s.e⟩

/-- The ring is not overrun, a full ring is committed, and no line has been left in the
part that is edited. -/
structure Fits (s : Cons) : Prop where
  size : size s.r s.w + size s.w s.e ≤ INPUT_BUF_SIZE
  full : WrapRing.size s.r s.w + WrapRing.size s.w s.e = INPUT_BUF_SIZE → s.w = s.e
  line : ∀ c ∈ s.input.line, c ≠ newline

variable {s : Cons} {c : UInt8}

lemma bufsize_dvd : INPUT_BUF_SIZE ∣ 2 ^ 32 := by norm_num

namespace Fits

lemma lt (h : Fits s) : WrapRing.size s.r s.w + WrapRing.size s.w s.e < 2 ^ 32 :=
  h.size.trans_lt (by norm_num)

/-- `cons.e - cons.r`. -/
lemma size_eq (h : Fits s) : (s.e - s.r).toNat = WrapRing.size s.r s.w + WrapRing.size s.w s.e :=
  size_add h.lt

lemma length_eq (s : Cons) : s.input.committed.length + s.input.line.length =
    WrapRing.size s.r s.w + WrapRing.size s.w s.e := by
  rw [Cons.input, length_contents, length_contents]

end Fits

lemma erase (h : Fits s) (hne : s.e ≠ s.w) :
    Fits { s with e := s.e - 1#32 } ∧
      ({ s with e := s.e - 1#32 } : Cons).input = { s.input with line := s.input.line.dropLast } ∧
      s.input.line = s.input.line.dropLast ++ [s.buf (cell INPUT_BUF_SIZE (s.e - 1#32))] := by
  have hsize := size_retreat hne.symm
  have hline : s.input.line = contents INPUT_BUF_SIZE s.buf s.w (s.e - 1#32) ++
      [s.buf (cell INPUT_BUF_SIZE (s.e - 1#32))] := contents_retreat bufsize_dvd hne.symm
  have hdrop : s.input.line.dropLast = contents INPUT_BUF_SIZE s.buf s.w (s.e - 1#32) := by
    rw [hline, List.dropLast_concat]
  refine ⟨⟨?_, fun hfull => ?_, fun c hc => ?_⟩, ?_, ?_⟩
  · have := h.size
    show size s.r s.w + size s.w (s.e - 1#32) ≤ INPUT_BUF_SIZE
    omega
  · have := h.size
    have hfull : size s.r s.w + size s.w (s.e - 1#32) = INPUT_BUF_SIZE := hfull
    omega
  · refine h.line c ?_
    rw [hline]
    exact List.mem_append_left _ hc
  · rw [hdrop]
    rfl
  · rw [hdrop]
    exact hline

/-- The loop of `^U` erases the whole line, which has no newline in it. -/
lemma killLine_spec {k : ℕ} (h : Fits s) (hk : size s.w s.e = k) :
    Fits (killLine k s) ∧ (killLine k s).input = { s.input with line := [] } := by
  induction k generalizing s with
  | zero =>
    refine ⟨h, ?_⟩
    have hempty : s.input.line = [] := List.length_eq_zero_iff.mp (by rw [Cons.input, length_contents, hk])
    rw [killLine, ← hempty]
  | succ k ih =>
    have hne : s.e ≠ s.w := by
      intro heq
      rw [heq, size_self] at hk
      omega
    obtain ⟨hfits, hinput, hline⟩ := erase h hne
    have hchar : s.buf (cell INPUT_BUF_SIZE (s.e - 1#32)) ≠ newline := by
      refine h.line _ ?_
      rw [hline]
      exact List.mem_append_right _ (List.mem_singleton_self _)
    have hsize := size_retreat hne.symm
    obtain ⟨hfits', hinput'⟩ := ih hfits (by
      show size s.w (s.e - 1#32) = k
      omega)
    rw [killLine, if_pos ⟨hne, hchar⟩]
    refine ⟨hfits', ?_⟩
    rw [hinput', hinput]

/-- A character is stored in a ring that is not full. -/
lemma store_spec (h : Fits s) (hroom : (s.e - s.r).toNat < INPUT_BUF_SIZE) :
    Fits (store s c) ∧ (store s c).input =
      let c := if c = carriageReturn then newline else c
      if c = newline ∨ c = ctrl 'D' ∨ s.input.committed.length + (s.input.line ++ [c]).length =
          INPUT_BUF_SIZE then
        ⟨s.input.committed ++ (s.input.line ++ [c]), []⟩
      else
        { s.input with line := s.input.line ++ [c] } := by
  obtain ⟨d, hd⟩ : ∃ d, d = if c = carriageReturn then newline else c := ⟨_, rfl⟩
  -- the ring after the character, before it may be committed
  obtain ⟨t, ht⟩ : ∃ t : Cons, t = { s with
    buf := update s.buf (cell INPUT_BUF_SIZE s.e) d, e := s.e + 1#32 } := ⟨_, rfl⟩
  have hstore : store s c = if d = newline ∨ d = ctrl 'D' ∨ (t.e - t.r).toNat = INPUT_BUF_SIZE then
      { t with w := t.e } else t := by
    rw [ht, hd]
    rfl
  rw [hstore, ← hd]
  dsimp only
  rw [h.size_eq] at hroom
  have hlt : size s.r s.w + size s.w s.e + 1 < 2 ^ 32 := by
    unfold INPUT_BUF_SIZE at hroom
    omega
  have hwrap : size s.w s.e + 1 < 2 ^ 32 := by omega
  have hparts : contents INPUT_BUF_SIZE (update s.buf (cell INPUT_BUF_SIZE s.e) d) s.r s.w =
      contents INPUT_BUF_SIZE s.buf s.r s.w ∧ _ := contents_write_parts bufsize_dvd h.lt hroom
  have hcommitted : t.input.committed = s.input.committed := by
    rw [ht]
    exact hparts.1
  have hline : t.input.line = s.input.line ++ [d] := by
    have hpart : size s.w s.e < INPUT_BUF_SIZE := by omega
    rw [ht]
    exact contents_push bufsize_dvd hpart hwrap
  have hsize : size t.w t.e = size s.w s.e + 1 := by
    rw [ht]
    exact size_push hwrap
  have hrw : size t.r t.w = size s.r s.w := by rw [ht]
  have hsum : size t.r t.w + size t.w t.e < 2 ^ 32 := by omega
  have htotal : (t.e - t.r).toNat = size t.r t.w + size t.w t.e := size_add hsum
  have hlength : s.input.committed.length + (s.input.line ++ [d]).length = size t.r t.w + size t.w t.e := by
    have := Fits.length_eq s
    rw [List.length_append, List.length_singleton]
    omega
  rw [htotal, hlength]
  split_ifs with hcommit
  · -- the line is committed
    have hall : ({ t with w := t.e } : Cons).input = ⟨t.input.committed ++ t.input.line, []⟩ := by
      unfold Cons.input
      rw [contents_append bufsize_dvd hsum, contents_self]
    refine ⟨⟨?_, fun _ => rfl, fun c hc => ?_⟩, ?_⟩
    · show size t.r t.e + size t.e t.e ≤ INPUT_BUF_SIZE
      rw [size_self, size_add hsum]
      omega
    · rw [hall] at hc
      exact absurd hc (List.not_mem_nil)
    · rw [hall, hcommitted, hline]
  · push Not at hcommit
    refine ⟨⟨?_, fun hfull => absurd hfull hcommit.2.2, fun c' hc' => ?_⟩, ?_⟩
    · omega
    · rw [hline] at hc'
      obtain hc' | hc' := List.mem_append.mp hc'
      · exact h.line c' hc'
      · rw [List.mem_singleton.mp hc']
        exact hcommit.1
    · rw [← hcommitted, ← hline]

theorem consoleintr_spec (h : Fits s) :
    Fits (consoleintr s c) ∧ (consoleintr s c).input = s.input.type c := by
  unfold consoleintr Input.type
  by_cases hP : c = ctrl 'P'
  · rw [if_pos hP, if_pos (.inr hP)]
    exact ⟨h, rfl⟩
  rw [if_neg hP]
  by_cases hU : c = ctrl 'U'
  · rw [if_pos hU, if_neg (by rw [hU]; decide), if_pos hU]
    exact killLine_spec h rfl
  rw [if_neg hU]
  by_cases hH : c = ctrl 'H' ∨ c = delete
  · have h0 : ¬ (c = 0 ∨ c = ctrl 'P') := by rcases hH with rfl | rfl <;> decide
    rw [if_pos hH, if_neg h0, if_neg hU, if_pos hH]
    split_ifs with hne
    · obtain ⟨hfits, hinput, -⟩ := erase h hne
      exact ⟨hfits, hinput⟩
    · have hempty : s.input.line = [] := by
        rw [Cons.input, not_not.mp hne, contents_self]
      refine ⟨h, ?_⟩
      rw [hempty, List.dropLast_nil, ← hempty]
  rw [if_neg hH]
  by_cases h0 : c = 0
  · rw [if_neg (fun hc => hc.1 h0), if_pos (.inl h0)]
    exact ⟨h, rfl⟩
  rw [if_neg (by tauto : ¬ (c = 0 ∨ c = ctrl 'P')), if_neg hU, if_neg hH, Fits.length_eq, ← h.size_eq]
  by_cases hroom : (s.e - s.r).toNat < INPUT_BUF_SIZE
  · rw [if_pos ⟨h0, hroom⟩, if_pos hroom]
    exact store_spec h hroom
  · rw [if_neg (fun hc => hroom hc.2), if_neg hroom]
    exact ⟨h, rfl⟩

lemma chunk_nil (first : Bool) (n : ℕ) : chunk first (n + 1) [] = ([], [], false) := by
  simp [chunk]

lemma chunk_cons (first : Bool) (n : ℕ) (q : List UInt8) : chunk first (n + 1) (c :: q) =
    if c = ctrl 'D' then
      ([], if first then q else c :: q, true)
    else if c = newline then
      ([c], q, true)
    else
      (c :: (chunk false n q).1, (chunk false n q).2.1, (chunk false n q).2.2) := by
  unfold chunk
  by_cases hD : c = ctrl 'D'
  · have hne : ctrl 'D' ≠ newline := by decide
    simp [hD, plain, hne]
  · by_cases hn : c = newline
    · simp [hn, plain, (by decide : newline ≠ ctrl 'D')]
    · have hplain : plain c = true := by simp [plain, hD, hn]
      rw [if_neg hD, if_neg hn]
      simp only [List.take_succ_cons, List.takeWhile_cons, hplain, if_true, List.length_cons,
        Nat.add_right_cancel_iff, List.drop_succ_cons]
      by_cases hlen : ((q.take n).takeWhile plain).length = n
      · rw [if_pos hlen, if_pos hlen]
      · rw [if_neg hlen, if_neg hlen]
        cases q.drop ((q.take n).takeWhile plain).length with
        | nil => rfl
        | cons d rest => by_cases hd : d = newline <;> simp [hd]

lemma advance (h : Fits s) (hne : s.r ≠ s.w) :
    Fits { s with r := s.r + 1#32 } ∧ s.input.committed = s.buf (cell INPUT_BUF_SIZE s.r) ::
      ({ s with r := s.r + 1#32 } : Cons).input.committed := by
  have hpop := size_pop hne
  have hsize := h.size
  refine ⟨⟨?_, fun hfull => ?_, h.line⟩, contents_pop bufsize_dvd hne⟩
  · show size (s.r + 1#32) s.w + size s.w s.e ≤ INPUT_BUF_SIZE
    omega
  · have hfull : size (s.r + 1#32) s.w + size s.w s.e = INPUT_BUF_SIZE := hfull
    omega

/-- What a reader does until it returns or sleeps: it takes the chunk that the reference
model gives it. -/
structure Takes (killed : Bool) (s : Cons) (n : ℕ) (got : List UInt8)
    (ch : List UInt8 × List UInt8 × Bool) (out : Stop × ℕ × List UInt8 × Cons) : Prop where
  stop : out.1 = if ch.2.2 then .done else if killed then .killed else .sleep
  rest : out.2.1 + ch.1.length = n
  got : out.2.2.1 = got ++ ch.1
  fits : Fits out.2.2.2
  input : out.2.2.2.input = { s.input with committed := ch.2.1 }

theorem readLoop_spec (killed : Bool) {dst : ℕ → Bool} {target n : ℕ} {got : List UInt8} (h : Fits s)
    (hdst : ∀ i, dst i = true) (htarget : target = n + got.length) :
    Takes killed s n got (chunk (got = []) n s.input.committed) (readLoop killed dst target n got s) := by
  induction n generalizing got s with
  | zero => exact ⟨rfl, rfl, (List.append_nil got).symm, h, rfl⟩
  | succ n ih =>
    unfold readLoop
    by_cases hempty : s.r = s.w
    · have hnil : s.input.committed = [] := by rw [Cons.input, hempty, contents_self]
      rw [if_pos hempty, hnil, chunk_nil]
      refine ⟨rfl, rfl, (List.append_nil got).symm, h, ?_⟩
      rw [← hnil]
    · rw [if_neg hempty]
      obtain ⟨hfits, hcommitted⟩ := advance h hempty
      rw [hcommitted, chunk_cons]
      dsimp only
      by_cases hD : s.buf (cell INPUT_BUF_SIZE s.r) = ctrl 'D'
      · rw [if_pos hD, if_pos hD]
        -- a `^D` is put back unless nothing has been read
        by_cases hgot : got = []
        · subst hgot
          rw [List.length_nil] at htarget
          rw [if_neg (show ¬ n + 1 < target by omega)]
          exact ⟨rfl, rfl, rfl, hfits, rfl⟩
        · have hpos := List.length_pos_iff.mpr hgot
          have hback : ({ s with r := s.r + 1#32 - 1#32 } : Cons) = s := by rw [BitVec.add_sub_cancel]
          rw [if_pos (show n + 1 < target by omega), hback]
          refine ⟨rfl, rfl, (List.append_nil got).symm, h, ?_⟩
          simp only [hgot, decide_false, Bool.false_eq_true, if_false]
          rw [← hcommitted]
      · rw [if_neg hD, if_neg hD, hdst, if_neg (show ¬ true = false by decide)]
        by_cases hn : s.buf (cell INPUT_BUF_SIZE s.r) = newline
        · rw [if_pos hn, if_pos hn]
          exact ⟨rfl, rfl, rfl, hfits, rfl⟩
        · rw [if_neg hn, if_neg hn]
          have hlength : target = n + (got ++ [s.buf (cell INPUT_BUF_SIZE s.r)]).length := by
            rw [List.length_append, List.length_singleton]
            omega
          have hnext := ih hfits hlength
          rw [decide_eq_false (by simp)] at hnext
          refine ⟨hnext.stop, ?_, ?_, hnext.fits, hnext.input⟩
          · have := hnext.rest
            rw [List.length_cons]
            omega
          · rw [hnext.got, List.append_assoc]
            rfl

variable {P : Type*} [DecidableEq P] {x x' : State P}

def view (x : State P) : Ref P where
  input := x.cons.input
  reader := fun p => (x.reader p).map fun rd => (rd.n, rd.got)
  returns := x.returns

def Event.Valid : Event P → Prop
  | .read _ _ dst _ => ∀ i, dst i = true
  | _ => True

/-- A call that has a valid destination and has returned the bytes it has taken. -/
def Read.Ok (rd : Read) : Prop := (∀ i, rd.dst i = true) ∧ rd.target = rd.n + rd.got.length

structure Inv (x : State P) : Prop where
  fits : Fits x.cons
  reader : ∀ p rd, x.reader p = some rd → rd.Ok

lemma view_update (x : State P) (p : P) (o : Option Read) :
    (fun q => (update x.reader p o q).map fun rd : Read => (rd.n, rd.got)) =
      update (view x).reader p (o.map fun rd => (rd.n, rd.got)) := by
  funext q
  by_cases hq : q = p
  · subst hq
    rw [update_self, update_self]
  · rw [update_of_ne hq, update_of_ne hq]
    rfl

theorem turn_spec (p : P) (killed : Bool) {rd : Read} (h : Inv x) (hrd : rd.Ok) :
    Inv (turn x p killed rd) ∧ view (turn x p killed rd) = (view x).turn p killed rd.n rd.got := by
  have htakes := readLoop_spec killed h.fits hrd.1 hrd.2
  have hcommitted : (view x).input.committed = x.cons.input.committed := rfl
  have hreaders (o : Option Read) (ho : ∀ r, o = some r → r.Ok) :
      ∀ q r, update x.reader p o q = some r → r.Ok := by
    intro q r hq
    by_cases hqp : q = p
    · subst hqp
      rw [update_self] at hq
      exact ho r hq
    · rw [update_of_ne hqp] at hq
      exact h.reader q r hq
  unfold turn Ref.turn
  rw [hcommitted]
  generalize hch : chunk (rd.got = []) rd.n x.cons.input.committed = ch at htakes ⊢
  generalize readLoop killed rd.dst rd.target rd.n rd.got x.cons = out at htakes ⊢
  obtain ⟨taken, rest, ended⟩ := ch
  obtain ⟨stop, n, got, c⟩ := out
  obtain ⟨hstop, hn, hgot, hfits, hinput⟩ := htakes
  dsimp only at hstop hn hgot hfits hinput
  subst hgot
  have htarget := hrd.2
  have hvalue : (rd.target : ℤ) - n = ((rd.got ++ taken).length : ℤ) := by
    rw [List.length_append]
    omega
  cases ended with
  | true =>
    obtain rfl : stop = .done := hstop
    refine ⟨⟨hfits, hreaders none fun _ hr => (by cases hr)⟩, ?_⟩
    dsimp only
    rw [hvalue]
    exact congrArg₂ (fun i r => (⟨i, r, _⟩ : Ref P)) hinput (view_update x p none)
  | false =>
    cases killed with
    | true =>
      obtain rfl : stop = .killed := hstop
      refine ⟨⟨hfits, hreaders none fun _ hr => (by cases hr)⟩, ?_⟩
      exact congrArg₂ (fun i r => (⟨i, r, _⟩ : Ref P)) hinput (view_update x p none)
    | false =>
      obtain rfl : stop = .sleep := hstop
      have hok : ({ rd with n := n, got := rd.got ++ taken } : Read).Ok := by
        refine ⟨hrd.1, ?_⟩
        show rd.target = n + (rd.got ++ taken).length
        omega
      have hrest : rd.n - taken.length = n := by omega
      refine ⟨⟨hfits, hreaders _ ?_⟩, ?_⟩
      · rintro _ ⟨⟩
        exact hok
      · dsimp only
        rw [hrest]
        exact congrArg₂ (fun i r => (⟨i, r, _⟩ : Ref P)) hinput (view_update x p _)

theorem step_spec (a : Event P) (h : Inv x) (ha : a.Valid) :
    Ref.step (view x) a = (step x a).map view ∧ ∀ x', step x a = some x' → Inv x' := by
  cases a with
  | intr c =>
    obtain ⟨hfits, hinput⟩ := consoleintr_spec (c := c) h.fits
    refine ⟨?_, ?_⟩
    · show some { view x with input := x.cons.input.type c } = _
      rw [← hinput]
      rfl
    · rintro _ ⟨⟩
      exact ⟨hfits, h.reader⟩
  | read p n dst killed =>
    have hrd : (⟨dst, n.toNat, n.toNat, []⟩ : Read).Ok := ⟨ha, rfl⟩
    obtain ⟨hinv, hview⟩ := turn_spec p killed h hrd
    have hnone : ((view x).reader p).isNone = (x.reader p).isNone := Option.isNone_map
    simp only [Ref.step, step, hnone]
    split_ifs with hp
    · refine ⟨congrArg some hview.symm, ?_⟩
      rintro _ ⟨⟩
      exact hinv
    · exact ⟨rfl, fun _ hx => (by cases hx)⟩
  | resume p killed =>
    have hreader : (view x).reader p = (x.reader p).map fun rd => (rd.n, rd.got) := rfl
    show ((view x).reader p).map _ = ((x.reader p).map (turn x p killed)).map view ∧
      ∀ x', (x.reader p).map (turn x p killed) = some x' → Inv x'
    rw [hreader]
    cases hp : x.reader p with
    | none => exact ⟨rfl, fun _ hx => (by cases hx)⟩
    | some rd =>
      obtain ⟨hinv, hview⟩ := turn_spec p killed h (h.reader p rd hp)
      refine ⟨congrArg some hview.symm, ?_⟩
      rintro _ ⟨⟩
      exact hinv

omit [DecidableEq P] in
lemma inv_init : Inv (init : State P) where
  fits := by
    refine ⟨?_, fun _ => rfl, fun c hc => ?_⟩
    · simp [init]
    · simp [init, Cons.input, contents_self] at hc
  reader := fun _ _ hp => (by cases hp)

/-- For every sequence of typed characters and reads, the console does what the reference
model does, and its indices are in order. Editing keys leave what is committed. -/
theorem console_line_discipline (events : List (Event P)) (hvalid : ∀ a ∈ events, a.Valid) :
    Runs.exec Ref.step Ref.init events = (Runs.exec step init events).map view ∧
    ∀ x, Runs.exec step init events = some x →
      (x.cons.w - x.cons.r).toNat ≤ (x.cons.e - x.cons.r).toNat ∧
      (x.cons.e - x.cons.r).toNat ≤ INPUT_BUF_SIZE ∧
      ((x.cons.e - x.cons.r).toNat = INPUT_BUF_SIZE → x.cons.w = x.cons.e) ∧
      ∀ c, c = ctrl 'U' ∨ c = ctrl 'H' ∨ c = delete →
        (consoleintr x.cons c).input.committed = x.cons.input.committed := by
  have hstep (x : State P) (a : Event P) (x' : State P) (h : Inv x) (ha : a.Valid)
      (hx' : step x a = some x') : Inv x' := (step_spec a h ha).2 x' hx'
  refine ⟨?_, fun x hx => ?_⟩
  · have hinit : (Ref.init : Ref P) = view init := by
      simp [Ref.init, view, init, Cons.input, contents_self]
    rw [hinit]
    exact Runs.exec_view view hstep (fun x a h ha => (step_spec a h ha).1) inv_init hvalid
  · have hinv := Runs.invariant_of_mem hstep inv_init hvalid hx
    have hfits := hinv.fits
    refine ⟨?_, ?_, fun hfull => ?_, fun c hc => ?_⟩
    · rw [hfits.size_eq]
      exact Nat.le_add_right ..
    · rw [hfits.size_eq]
      exact hfits.size
    · rw [hfits.size_eq] at hfull
      exact hfits.full hfull
    · rw [(consoleintr_spec hfits).2]
      rcases hc with rfl | rfl | rfl <;> rfl

/-- A process waits for a line, of which one character is erased. -/
def lineEvents : List (Event ℕ) :=
  [.intr 104, .read 0 10 (fun _ => true) false, .intr 105, .intr (ctrl 'H'), .intr carriageReturn,
    .resume 0 false, .intr (ctrl 'D'), .read 1 10 (fun _ => true) false]

theorem console_line_discipline_lineEvents :
    (∀ a ∈ lineEvents, a.Valid) ∧ (Runs.exec Ref.step Ref.init lineEvents).map Ref.returns =
      some [(0, 2, [104, newline]), (1, 0, [])] ∧
    Runs.exec Ref.step Ref.init lineEvents = (Runs.exec step init lineEvents).map view := by
  have hvalid : ∀ a ∈ lineEvents, a.Valid := by simp [lineEvents, Event.Valid]
  exact ⟨hvalid, by decide +kernel, (console_line_discipline lineEvents hvalid).1⟩

end Xv6.Console
